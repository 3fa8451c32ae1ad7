/-
  Xv6.FileTable.Counts — the counts in every run.

  `ref` of an entry is the number of references that all processes hold; an open end of a
  pipe, or a reference to an inode, belongs to one entry or to one process.
-/
import Xv6.FileTable.Procs

namespace Xv6.FileTable

open Lib Function State
open Fs (NFILE NOFILE NINODE)

def Call.fresh : Call → List (Fin NFILE)
  | .openFd _ f | .pipeFile1 f => [f]
  | .pipeKalloc f0 f1 => [f0, f1]
  | _ => []

def closedPage (q : Option Pipe) : Int := flag (q = some ⟨false, false⟩)

structure Counts (s : State) : Prop where
  ref : ∀ f, (s.file f).ref = ∑ q, (s.proc q).hold f
  free : ∀ f, (s.file f).ref = 0 → (s.file f).type = .FD_NONE
  fresh : ∀ p, ∀ f ∈ (s.proc p).call.fresh, (s.file f).ref = 1 ∧ (s.file f).type = .FD_NONE
  nodup : ∀ p, (s.proc p).call.fresh.Nodup
  res : ∀ r, s.supply r = ∑ f, (s.file f).gives r + ∑ q, (s.proc q).transit r
  page : ∀ pi, closedPage (s.pipe pi) = ∑ q, (s.proc q).frees pi

section Counts

variable {s s' : State} {p q : Slot} {x : Proc} {ops rest : List Op} {f g : Fin NFILE}

theorem sum_setProc (g : Proc → Int) (s : State) (p : Slot) (x : Proc) :
    ∑ q, g ((s.setProc p x).proc q) = ∑ q, g (s.proc q) - g (s.proc p) + g x :=
  sum_update g s.proc p x

theorem sum_setFile (g : File → Int) (s : State) (f : Fin NFILE) (file : File) :
    ∑ e, g ((s.setFile f file).file e) = ∑ e, g (s.file e) - g (s.file f) + g file :=
  sum_update g s.file f file

theorem Counts.hold_le (h : Counts s) (p : Slot) (f : Fin NFILE) :
    (s.proc p).hold f ≤ (s.file f).ref := by
  rw [h.ref f]
  exact le_sum (fun x => hold_nonneg x f) s.proc p

theorem Counts.ref_nonneg (h : Counts s) (f : Fin NFILE) : 0 ≤ (s.file f).ref := by
  rw [h.ref f]
  exact Finset.sum_nonneg fun q _ => hold_nonneg _ f

theorem Counts.holder_unique (h : Counts s) (hf : (s.file f).ref = 1) (hp : 1 ≤ (s.proc p).hold f)
    (hq : 1 ≤ (s.proc q).hold f) : p = q := by
  apply eq_of_sum_le_one (g := fun x => Proc.hold x f) (fun x => hold_nonneg x f) (c := s.proc)
  · rw [← h.ref f, hf]
  · exact hp
  · exact hq

theorem hold_of_carries {x : Proc} (h : f ∈ x.call.carries) : 1 ≤ x.hold f := by
  have hcount : 1 ≤ x.carried.count f := by
    apply List.count_pos_iff.mpr
    exact List.mem_append_right _ h
  have hslots := slots_nonneg x.eff f
  unfold Proc.hold
  omega

theorem hold_of_fileclose {x : Proc} (h : x.ops = .fileclose f :: rest) : 1 ≤ x.hold f := by
  have hcount : 1 ≤ x.carried.count f := by
    apply List.count_pos_iff.mpr
    simp [Proc.carried, h, Op.carries]
  have hslots := slots_nonneg x.eff f
  unfold Proc.hold
  omega

variable {fd : Fin NOFILE} {c call : Call} {t : State} {x' y y' : Proc} {np : Slot}
  {f0 f1 : Fin NFILE} {pi : Nat} {file : File} {r : Res} {w : Bool}

theorem hold_of_slot {x : Proc} (h : x.eff fd = some f) : 1 ≤ x.hold f := by
  have hslots := slots_pos h
  unfold Proc.hold
  omega

theorem fresh_carries (h : f ∈ c.fresh) : f ∈ c.carries := by
  cases c <;> first | exact h | cases h

/-! ## §2. References to files. -/

theorem setFile_self (s : State) (f : Fin NFILE) (file : File) : (s.setFile f file).file f = file :=
  update_self _ _ _

theorem setFile_of_ne (h : g ≠ f) (file : File) : (s.setFile f file).file g = s.file g :=
  update_of_ne h _ _

theorem tally_setProc (g : Proc → Int) (hx : s.proc p = x) {v v' : Int}
    (ht : t.proc = s.proc) (hv : v = ∑ q, g (s.proc q)) (hstep : g x' - g x = v' - v) :
    v' = ∑ q, g ((t.setProc p x').proc q) := by
  have hsum := sum_setProc g t p x'
  rw [ht, hx] at hsum
  omega

theorem sum_both (g : Proc → Int) (hne : p ≠ np) (x y : Proc) :
    ∑ q, g (((s.setProc np y).setProc p x).proc q) =
      ∑ q, g (s.proc q) - g (s.proc np) + g y - g (s.proc p) + g x := by
  have hp : (s.setProc np y).proc p = s.proc p := update_of_ne hne _ _
  rw [sum_setProc, sum_setProc, hp]

theorem tally_both (g : Proc → Int) (hr : Runs s p ops x) {v : Int}
    (hy : s.proc np = y) (hnp : y.status ≠ .live) (hv : v = ∑ q, g (s.proc q))
    (hstep : g x' + g y' = g x + g y) :
    v = ∑ q, g (((s.setProc np y').setProc p x').proc q) := by
  have hne : p ≠ np := by
    rintro rfl
    exact hnp (hy ▸ hr.proc ▸ hr.live)
  have hsum := sum_both (s := s) g hne x' y'
  rw [hr.proc, hy] at hsum
  omega

theorem ref_setProc (h : Counts s) (hx : s.proc p = x)
    (ht : t.proc = s.proc) (hhold : x'.hold g - x.hold g = (t.file g).ref - (s.file g).ref) :
    ((t.setProc p x').file g).ref = ∑ q, ((t.setProc p x').proc q).hold g :=
  tally_setProc (fun x => x.hold g) hx ht (h.ref g) hhold

theorem setFile_ref (s : State) (f : Fin NFILE) (file : File) (g : Fin NFILE) :
    ((s.setFile f file).file g).ref =
      (s.file g).ref + (file.ref - (s.file f).ref) * flag (f = g) := by
  by_cases h : f = g
  · subst h
    rw [setFile_self]
    simp
  · rw [setFile_of_ne (Ne.symm h)]
    simp [h]

theorem Allocs.hold (h : Allocs f c call) (hc : x.call = c) (hops : x.ops = [])
    (g : Fin NFILE) : ({ x with call := call } : Proc).hold g = x.hold g + flag (f = g) := by
  cases h <;> rw [hold_goto _ hops (by rw [hc]; rfl) rfl, hc] <;>
    simp [Call.carries, count_cons_flag]

theorem Installs.hold (h : Installs fd f c call)
    (hc : x.call = c) (hops : x.ops = []) (hfd : x.ofile fd = none) (g : Fin NFILE) :
    ({ x with ofile := update x.ofile fd (some f), call := call } : Proc).hold g = x.hold g := by
  cases h <;> rw [hold_install _ hops (by rw [hc]; rfl) rfl hfd, hc] <;>
    simp [Call.carries, count_cons_flag]

theorem initPipe_ref (s : State) (f0 f1 : Fin NFILE) (pi : Nat) (g : Fin NFILE) :
    ((s.initPipe f0 f1 pi).file g).ref = (s.file g).ref := by
  simp only [initPipe]
  rw [setFile_ref, setFile_ref]
  simp [File.pipeEnd, setPipe]

theorem initPipe_of_ne (h0 : g ≠ f0) (h1 : g ≠ f1) :
    (s.initPipe f0 f1 pi).file g = s.file g := by
  simp only [initPipe]
  rw [setFile_of_ne h1, setFile_of_ne h0]
  rfl

theorem ref_both (h : Counts s) (hr : Runs s p ops x)
    (hy : s.proc np = y) (hnp : y.status ≠ .live)
    (hhold : x'.hold g + y'.hold g = x.hold g + y.hold g) :
    (((s.setProc np y').setProc p x').file g).ref =
      ∑ q, (((s.setProc np y').setProc p x').proc q).hold g :=
  tally_both (fun x => x.hold g) hr hy hnp (h.ref g) hhold

theorem ref_move (h : Move s s') (hp : Procs s) (hs : Counts s) (g : Fin NFILE) :
    (s'.file g).ref = ∑ q, (s'.proc q).hold g := by
  cases h with
  | stay => exact hs.ref g
  | @turn p x ops call hr hturn =>
    refine ref_setProc hs hr.proc rfl ?_
    rw [turn_hold (hr.proc ▸ hp.fits p) hr.ops hturn]
    omega
  | @opening p x o hr hc =>
    refine ref_setProc hs hr.proc rfl ?_
    rw [hold_goto _ hr.ops (by rw [hc]; rfl) rfl, hc]
    simp [Call.carries, setIrefs]
  | @dropped p x f rest hr href =>
    refine ref_setProc hs hr.proc rfl ?_
    rw [show rest = [] ++ rest from rfl, hold_pop hr.ops (by simp) (by simp) rfl, setFile_ref]
    simp [Op.carries, count_cons_flag, File.setRef]
  | @closed p x f rest hr href =>
    refine ref_setProc hs hr.proc rfl ?_
    rw [hold_pop hr.ops (by simp) (clear_not_mem_release _) (release_carries _), setFile_ref, href]
    simp [Op.carries, count_cons_flag, File.closed]
  | @pipeclosed p x pi w rest q hr hq =>
    refine ref_setProc hs hr.proc rfl ?_
    split
    · rw [show Op.kfree pi :: rest = [Op.kfree pi] ++ rest from rfl,
        hold_pop hr.ops (by simp) (by simp) rfl]
      simp [Op.carries, setPipe]
    · rw [show rest = [] ++ rest from rfl, hold_pop hr.ops (by simp) (by simp) rfl]
      simp [Op.carries, setPipe]
  | @freed p x pi rest hr | @iput p x ip rest hr =>
    refine ref_setProc hs hr.proc rfl ?_
    rw [show rest = [] ++ rest from rfl, hold_pop hr.ops (by simp) (by simp) rfl]
    simp [Op.carries, setPipe, setIrefs]
  | cleared hr =>
    refine ref_setProc hs hr.proc rfl ?_
    rw [hold_clear hr.ops]
    omega
  | @alloc p x f call hr hf hc =>
    refine ref_setProc hs hr.proc rfl ?_
    rw [hc.hold rfl hr.ops, take, setFile_ref, hf]
    simp [File.setRef]
  | @opened p x o f fd hr hc hfd =>
    refine ref_setProc hs hr.proc rfl ?_
    rw [hold_install _ hr.ops (by rw [hc]; rfl) rfl hfd, hc, setFile_ref]
    simp [Call.carries, count_cons_flag, File.opened, Fs.File.opened]
  | reserved hr hc hfd =>
    refine ref_setProc hs hr.proc rfl ?_
    rw [hold_reserve hr.ops hc hfd]
    omega
  | @duped p x f fd hr hc =>
    refine ref_setProc hs hr.proc rfl ?_
    have hknows : x.ofile fd = some f ∧ _ := (hr.proc ▸ hp.fits p).knows_call hc
    rw [hold_duped hr.ops hc hknows.1, setFile_ref]
    simp [File.setRef]
  | installed hr hc hfd =>
    refine ref_setProc hs hr.proc rfl ?_
    rw [hc.hold rfl hr.ops hfd]
    omega
  | @piped p x f0 f1 pi hr hc hpi =>
    refine ref_setProc hs hr.proc rfl ?_
    rw [hold_goto _ hr.ops (by rw [hc]; rfl) rfl, hc, initPipe_ref]
    simp [Call.carries]
  | @forkDup p x np i f hr hi hc hf =>
    refine ref_setProc hs hr.proc rfl ?_
    rw [hold_goto _ hr.ops (by rw [hc]; rfl) rfl, hc, setFile_ref]
    simp [Call.carries, count_cons_flag, File.setRef]
  | @exited p x i hr hi hc =>
    refine ref_setProc hs hr.proc rfl ?_
    have hhold := hold_goto .idle hr.ops (by rw [hc]; rfl) rfl g
    rw [hc] at hhold
    change ({ x with call := .idle } : Proc).hold g - _ = _
    rw [hhold]
    simp [Call.carries]
  | reaped hx hz =>
    refine ref_setProc hs hx rfl ?_
    exact (Int.sub_self _).trans (Int.sub_self _).symm
  | @forking p x np y hr hc hy hnp =>
    refine ref_both hs hr hy (by rw [hnp]; simp) ?_
    have hhold := hold_goto (.forkCopy np) hr.ops (by rw [hc]; rfl) rfl g
    rw [hhold, hc]
    simp [Call.carries]
    rfl
  | @unforked p x np y hr hc hy | @forked p x np y i hr hi hc hy =>
    have hused : y.status = .used := hy ▸ hp.child p np (by rw [hr.proc, hc]; rfl)
    refine ref_both hs hr hy (by rw [hused]; simp) ?_
    have hhold := hold_goto .idle hr.ops (by rw [hc]; rfl) rfl g
    rw [hhold, hc]
    simp [Call.carries]
    rfl
  | @forkStored p x np y i f hr hc hy =>
    subst hy
    have hcp : (s.proc p).call.child = some np := by rw [hr.proc, hc]; rfl
    have hused := hp.child p np hcp
    have hcalm := hp.calm np (by rw [hused]; simp)
    have hnone : (s.proc np).ofile i = none :=
      hp.later p np hcp i (by rw [hr.proc, hc]; exact Nat.le_refl _)
    refine ref_both hs hr rfl (by rw [hused]; simp) ?_
    have hhold := hold_goto (.forkFd np (i + 1)) hr.ops (by rw [hc]; rfl) rfl g
    have hchild := hold_install (f := f) (s.proc np).call hcalm.1 (by rw [hcalm.2]; rfl)
      (by rw [hcalm.2]; rfl) hnone g
    rw [hhold, hc, hchild]
    simp [Call.carries, count_cons_flag]

/-! ## §3. Free and new entries. -/

theorem free_setFile (h : Counts s) (hfile : file.ref = 0 → file.type = .FD_NONE)
    (g : Fin NFILE) (hg : ((s.setFile f file).file g).ref = 0) :
    ((s.setFile f file).file g).type = .FD_NONE := by
  by_cases hgf : g = f
  · subst hgf
    rw [setFile_self] at hg ⊢
    exact hfile hg
  · rw [setFile_of_ne hgf] at hg ⊢
    exact h.free g hg

theorem fresh_of_call (h : Counts s) (hr : Runs s p ops x) (hc : x.call = c)
    (hf : f ∈ c.fresh) : (s.file f).ref = 1 ∧ (s.file f).type = .FD_NONE := by
  apply h.fresh p
  rw [hr.proc, hc]
  exact hf

theorem free_move (h : Move s s') (hs : Counts s) (g : Fin NFILE) (hg : (s'.file g).ref = 0) :
    (s'.file g).type = .FD_NONE := by
  cases h with
  | @dropped p x f rest hr href =>
    refine free_setFile hs (fun h0 => ?_) g hg
    change (s.file f).ref - 1 = 0 at h0
    omega
  | closed => exact free_setFile hs (fun _ => rfl) g hg
  | alloc =>
    refine free_setFile hs (fun h0 => ?_) g hg
    cases h0
  | @opened p x o f fd hr hc hfd =>
    refine free_setFile hs (fun h0 => ?_) g hg
    have hone := (fresh_of_call hs hr hc (List.mem_singleton_self f)).1
    change (s.file f).ref = 0 at h0
    omega
  | @duped p x f | @forkDup p x np i f =>
    refine free_setFile hs (fun h0 => ?_) g hg
    have hnonneg := hs.ref_nonneg f
    change (s.file f).ref + 1 = 0 at h0
    omega
  | @piped p x f0 f1 pi hr hc hpi =>
    have hzero : (s.file g).ref = 0 := (initPipe_ref s f0 f1 pi g).symm.trans hg
    have hne : ∀ f ∈ [f0, f1], g ≠ f := by
      intro f hf he
      have hone := (fresh_of_call hs hr hc hf).1
      rw [← he] at hone
      omega
    show ((s.initPipe f0 f1 pi).file g).type = .FD_NONE
    rw [initPipe_of_ne (hne f0 (by simp)) (hne f1 (by simp))]
    exact hs.free g hzero
  | _ => exact hs.free g hg

theorem fresh_setProc (h : Counts s)
    (hf : f ∈ ((t.setProc p x').proc q).call.fresh) (ht : ∀ q, (t.proc q).call = (s.proc q).call)
    (htouch : ∀ f, (s.file f).ref = 1 → ¬ 1 ≤ (s.proc p).hold f → t.file f = s.file f)
    (hown : ∀ f ∈ x'.call.fresh, (t.file f).ref = 1 ∧ (t.file f).type = .FD_NONE) :
    ((t.setProc p x').file f).ref = 1 ∧ ((t.setProc p x').file f).type = .FD_NONE := by
  show (t.file f).ref = 1 ∧ (t.file f).type = .FD_NONE
  change f ∈ (update t.proc p x' q).call.fresh at hf
  by_cases hq : q = p
  · rw [hq, update_self] at hf
    exact hown f hf
  · rw [update_of_ne hq, ht] at hf
    have hfresh := h.fresh q f hf
    rw [htouch f hfresh.1]
    · exact hfresh
    · intro hp
      exact hq (h.holder_unique hfresh.1 (hold_of_carries (fresh_carries hf)) hp)

theorem Turn.fresh (h : Turn x ops call) : call.fresh = [] := by
  cases h <;> rfl

theorem Installs.fresh (h : Installs fd f c call) :
    call.fresh = [] := by
  cases h <;> rfl

theorem Proc.Fits.fresh {op : Op} (h : x.Fits) (hops : x.ops = op :: rest) : x.call.fresh = [] := by
  rcases h.simple (by simp [hops]) with hc | ⟨i, hc⟩
  · rw [hc]
    rfl
  · rw [hc]
    rfl

theorem setFile_touch (hf : (s.file f).ref ≠ 1 ∨ 1 ≤ (s.proc p).hold f)
    (g : Fin NFILE) (hg : (s.file g).ref = 1) (hp : ¬ 1 ≤ (s.proc p).hold g) :
    (s.setFile f file).file g = s.file g := by
  apply setFile_of_ne
  rintro rfl
  exact hf.elim (fun h => h hg) hp

theorem of_fresh_nil (h : c.fresh = []) {P : Fin NFILE → Prop} : ∀ f ∈ c.fresh, P f := by
  simp [h]

theorem call_setProc (hy : s.proc np = y) (hcall : y'.call = y.call)
    (q : Slot) : ((s.setProc np y').proc q).call = (s.proc q).call := by
  show (update s.proc np y' q).call = _
  by_cases hq : q = np
  · rw [hq, update_self, hcall, hy]
  · rw [update_of_ne hq]

theorem dupRef_eff (hx : x.Fits) (hops : x.ops = []) (hc : x.call = .dupRef f fd) :
    ∃ c, x.eff c = some f := by
  obtain ⟨-, c, hne, hcf⟩ : x.ofile fd = some f ∧ ∃ c, c ≠ fd ∧ x.ofile c = some f :=
    hx.knows_call hc
  refine ⟨c, ?_⟩
  rw [eff_dupRef hops hc, update_of_ne hne]
  exact hcf

theorem Allocs.mem_fresh (h : Allocs f c call) (hg : g ∈ call.fresh) :
    g = f ∨ g ∈ c.fresh := by
  cases h with
  | opens | pipe0 => exact .inl (List.mem_singleton.mp hg)
  | pipe1 =>
    rcases List.mem_cons.mp hg with rfl | hg
    · exact .inr List.mem_cons_self
    · exact .inl (List.mem_singleton.mp hg)

theorem fresh_move (h : Move s s') (hp : Procs s) (hs : Counts s) (q : Slot) (g : Fin NFILE)
    (hg : g ∈ (s'.proc q).call.fresh) : (s'.file g).ref = 1 ∧ (s'.file g).type = .FD_NONE := by
  have hsame : ∀ {p} f, (s.file f).ref = 1 → ¬ 1 ≤ (s.proc p).hold f → s.file f = s.file f :=
    fun _ _ _ => rfl
  cases h with
  | stay => exact hs.fresh q g hg
  | turn hr hturn => exact fresh_setProc hs hg (fun _ => rfl) hsame (of_fresh_nil hturn.fresh)
  | installed hr hc => exact fresh_setProc hs hg (fun _ => rfl) hsame (of_fresh_nil hc.fresh)
  | opening | reserved | exited =>
    exact fresh_setProc hs hg (fun _ => rfl) hsame (of_fresh_nil rfl)
  | @pipeclosed p x pi w rest q' hr | @freed p x pi rest hr | @iput p x ip rest hr
  | @cleared p x fd rest hr =>
    have hnil := (hr.proc ▸ hp.fits p).fresh hr.ops
    exact fresh_setProc hs hg (fun _ => rfl) hsame (of_fresh_nil hnil)
  | @reaped p x hx hz =>
    have hidle := (hp.calm p (by rw [hx, hz]; exact nofun)).2
    exact fresh_setProc hs hg (fun _ => rfl) hsame (of_fresh_nil (by rw [← hx, hidle]; rfl))
  | forking hr hc hy | unforked hr hc hy | forked hr hi hc hy | forkStored hr hc hy =>
    exact fresh_setProc hs hg (call_setProc hy rfl) hsame (of_fresh_nil rfl)
  | @dropped p x f rest hr | @closed p x f rest hr =>
    have hnil := (hr.proc ▸ hp.fits p).fresh hr.ops
    have hhold := hold_of_fileclose (hr.proc ▸ hr.ops)
    exact fresh_setProc hs hg (fun _ => rfl) (setFile_touch (.inr hhold)) (of_fresh_nil hnil)
  | @opened p x o f fd hr hc hfd =>
    have hhold : 1 ≤ (s.proc p).hold f := hold_of_carries (by rw [hr.proc, hc]; simp [Call.carries])
    exact fresh_setProc hs hg (fun _ => rfl) (setFile_touch (.inr hhold)) (of_fresh_nil rfl)
  | @duped p x f fd hr hc =>
    have hhold := hold_of_slot (hr.proc ▸ dupRef_eff (hr.proc ▸ hp.fits p) hr.ops hc).choose_spec
    exact fresh_setProc hs hg (fun _ => rfl) (setFile_touch (.inr hhold)) (of_fresh_nil rfl)
  | @forkDup p x np i f hr hi hc hf =>
    have heff : (s.proc p).eff ⟨i, hi⟩ = some f := by
      rw [hr.proc, eff_eq (by simp [hr.ops]) (by rw [hc]; rfl)]
      exact hf
    exact fresh_setProc hs hg (fun _ => rfl) (setFile_touch (.inr (hold_of_slot heff)))
      (of_fresh_nil rfl)
  | @piped p x f0 f1 pi hr hc hpi =>
    have hhold : ∀ f ∈ [f0, f1], 1 ≤ (s.proc p).hold f := fun f hf =>
      hold_of_carries (by rw [hr.proc, hc]; exact hf)
    refine fresh_setProc hs hg (fun _ => rfl) (fun f hf hno => ?_) (of_fresh_nil rfl)
    apply initPipe_of_ne
    · rintro rfl
      exact hno (hhold f (by simp))
    · rintro rfl
      exact hno (hhold f (by simp))
  | @alloc p x f call hr hf hc =>
    have hnew : ((s.take f).file f).ref = 1 ∧ ((s.take f).file f).type = .FD_NONE := by
      rw [take, setFile_self]
      exact ⟨rfl, hs.free f hf⟩
    have hne : (s.file f).ref ≠ 1 := by
      rw [hf]
      decide
    refine fresh_setProc hs hg (fun _ => rfl) (setFile_touch (.inl hne)) ?_
    intro e he
    rcases hc.mem_fresh he with rfl | he
    · exact hnew
    · have hfresh := fresh_of_call hs hr rfl he
      rw [take, setFile_of_ne]
      · exact hfresh
      · rintro rfl
        exact hne hfresh.1

theorem nodup_setProc (h : Counts s) (hown : x'.call.fresh.Nodup)
    (ht : ∀ q, (t.proc q).call = (s.proc q).call) (q : Slot) :
    ((t.setProc p x').proc q).call.fresh.Nodup := by
  show (update t.proc p x' q).call.fresh.Nodup
  by_cases hq : q = p
  · rw [hq, update_self]
    exact hown
  · rw [update_of_ne hq, ht]
    exact h.nodup q

theorem Allocs.nodup (h : Allocs f c call) (hf : f ∉ c.fresh) :
    call.fresh.Nodup := by
  cases h with
  | opens | pipe0 => exact List.nodup_singleton f
  | pipe1 =>
    rw [Call.fresh, List.mem_singleton] at hf
    simpa [Call.fresh, eq_comm] using hf

theorem nodup_move (h : Move s s') (hs : Counts s) (q : Slot) : (s'.proc q).call.fresh.Nodup := by
  have hnil : ∀ {c : Call}, c.fresh = [] → c.fresh.Nodup := fun h => by
    rw [h]
    exact List.nodup_nil
  cases h with
  | stay => exact hs.nodup q
  | turn hr hturn => exact nodup_setProc hs (hnil hturn.fresh) (fun _ => rfl) q
  | installed hr hc => exact nodup_setProc hs (hnil hc.fresh) (fun _ => rfl) q
  | @alloc p x f call hr hf hc =>
    refine nodup_setProc hs (hc.nodup fun hmem => ?_) (fun _ => rfl) q
    have hone := (fresh_of_call hs hr rfl hmem).1
    omega
  | @dropped p x f rest hr | @closed p x f rest hr | @pipeclosed p x pi w rest q' hr
  | @freed p x pi rest hr | @iput p x ip rest hr | @cleared p x fd rest hr =>
    have hown := hs.nodup p
    rw [hr.proc] at hown
    exact nodup_setProc hs (by exact hown) (fun _ => rfl) q
  | @reaped p x hx hz =>
    have hown := hs.nodup p
    rw [hx] at hown
    exact nodup_setProc hs (by exact hown) (fun _ => rfl) q
  | forking hr hc hy | unforked hr hc hy | forked hr hi hc hy | forkStored hr hc hy =>
    refine nodup_setProc hs ?_ (by exact call_setProc hy rfl) q
    exact List.nodup_nil
  | _ =>
    refine nodup_setProc hs ?_ (fun _ => rfl) q
    exact List.nodup_nil

/-! ## §4. Pipes and inodes. -/

theorem res_setProc (h : Counts s) (hx : s.proc p = x)
    (ht : t.proc = s.proc)
    (hres : t.supply r - s.supply r = ∑ f, (t.file f).gives r - ∑ f, (s.file f).gives r +
        (x'.transit r - x.transit r)) :
    (t.setProc p x').supply r = ∑ f, ((t.setProc p x').file f).gives r +
      ∑ q, ((t.setProc p x').proc q).transit r := by
  have hv := h.res r
  have htally : t.supply r - ∑ f, (t.file f).gives r = ∑ q, ((t.setProc p x').proc q).transit r :=
    tally_setProc (fun x => x.transit r) hx ht (eq_sub_of_add_eq' hv.symm).symm (by omega)
  rw [← htally]
  show t.supply r = ∑ f, (t.file f).gives r + _
  omega

theorem res_both (h : Counts s) (hr : Runs s p ops x)
    (hy : s.proc np = y) (hnp : y.status ≠ .live) (hx' : x'.transit r = x.transit r)
    (hy' : y'.transit r = y.transit r) :
    ((s.setProc np y').setProc p x').supply r =
      ∑ f, (((s.setProc np y').setProc p x').file f).gives r +
        ∑ q, (((s.setProc np y').setProc p x').proc q).transit r := by
  rw [← tally_both (fun x => x.transit r) hr hy hnp rfl (by rw [hx', hy'])]
  exact h.res r

theorem sum_res_setFile (s : State) (f : Fin NFILE) (file : File) (r : Res) :
    ∑ e, ((s.setFile f file).file e).gives r =
      ∑ e, (s.file e).gives r - (s.file f).gives r + file.gives r :=
  sum_setFile (fun file => file.gives r) s f file

theorem gives_eq {r' : Res} (h : file.res = some r') (r : Res) :
    file.gives r = flag (r' = r) := by
  rw [File.gives, h]
  simp

theorem gives_eq_zero (h : file.type = .FD_NONE) (r : Res) : file.gives r = 0 := by
  simp [File.gives, File.res, h]

theorem Allocs.res (h : Allocs f c call) : call.res = c.res := by
  cases h <;> rfl

theorem Installs.res (h : Installs fd f c call) :
    call.res = c.res := by
  cases h <;> rfl

theorem count_toList (o : Option Res) (r : Res) : (o.toList.count r : Int) = flag (o = some r) := by
  cases o with
  | none => simp
  | some r' =>
    by_cases h : r' = r
    · simp [h]
    · simp [h]

theorem supply_setIrefs (s : State) (ip : Fin NINODE) (d : Int) (r : Res) :
    (s.setIrefs ip (s.irefs ip + d)).supply r =
      s.supply r + d * flag (Res.inode (some ip) = r) := by
  cases r with
  | pipeEnd pi w => cases pi <;> simp [supply, setIrefs]
  | inode e =>
    cases e with
    | none => simp [supply]
    | some e =>
      simp only [supply, setIrefs, update_apply]
      by_cases h : e = ip
      · simp [h]
      · simp [h, Ne.symm h]

theorem supply_close {q : Pipe} (hq : s.pipe pi = some q)
    (hopen : q.isOpen w = true) (r : Res) :
    (s.setPipe pi (some (q.close w))).supply r =
      s.supply r - flag (Res.pipeEnd (some pi) w = r) := by
  cases r with
  | inode e => cases e <;> simp [supply, setPipe]
  | pipeEnd pj v =>
    cases pj with
    | none => simp [supply]
    | some pj =>
      simp only [supply, setPipe, update_apply]
      by_cases h : pj = pi
      · subst h
        cases w <;> cases v <;> simp_all [Pipe.isOpen, Pipe.close]
      · simp [h, Ne.symm h]

theorem supply_free (hq : s.pipe pi = some ⟨false, false⟩) (r : Res) :
    (s.setPipe pi none).supply r = s.supply r := by
  cases r with
  | inode e => cases e <;> rfl
  | pipeEnd pj v =>
    cases pj with
    | none => rfl
    | some pj =>
      simp only [supply, setPipe, update_apply]
      by_cases h : pj = pi
      · subst h
        simp [hq, Pipe.isOpen]
      · simp [h]

theorem supply_initPipe (hpi : s.pipe pi = none) (r : Res) :
    (s.initPipe f0 f1 pi).supply r = s.supply r + flag (Res.pipeEnd (some pi) false = r) +
      flag (Res.pipeEnd (some pi) true = r) := by
  cases r with
  | inode e => cases e <;> simp [supply, initPipe, setPipe, setFile]
  | pipeEnd pj v =>
    cases pj with
    | none => simp [supply]
    | some pj =>
      simp only [supply, initPipe, setPipe, setFile,
        update_apply]
      by_cases h : pj = pi
      · subst h
        cases v <;> simp [hpi, Pipe.isOpen]
      · simp [h, Ne.symm h]

theorem sum_res_initPipe (hne : f0 ≠ f1) (h0 : (s.file f0).type = .FD_NONE)
    (h1 : (s.file f1).type = .FD_NONE) (pi : Nat) (r : Res) :
    ∑ e, ((s.initPipe f0 f1 pi).file e).gives r =
      ∑ e, (s.file e).gives r + flag (Res.pipeEnd (some pi) false = r) +
        flag (Res.pipeEnd (some pi) true = r) := by
  have hend : ∀ (file : File) w, (file.pipeEnd pi w).gives r = flag (Res.pipeEnd (some pi) w = r) :=
    fun _ _ => gives_eq rfl r
  simp only [initPipe]
  rw [sum_res_setFile, sum_res_setFile, setFile_of_ne hne.symm, hend, hend]
  show ∑ e, (s.file e).gives r - (s.file f0).gives r + _ - (s.file f1).gives r + _ = _
  rw [gives_eq_zero h0, gives_eq_zero h1]
  omega

theorem opened_res (file : File) (o : Opening) : (file.opened o).res = some (.inode (some o.ip)) := by
  unfold File.res File.opened Fs.File.opened
  by_cases h : o.d.type = Fs.T_DEVICE
  · simp [h]
  · simp [h]

theorem Counts.supply_pos (h : Counts s) (hr : Runs s p ops x) (hx : 1 ≤ x.transit r) :
    1 ≤ s.supply r := by
  have hle : (s.proc p).transit r ≤ ∑ q, (s.proc q).transit r :=
    le_sum (fun x => transit_nonneg x r) s.proc p
  rw [hr.proc] at hle
  have hsum : 0 ≤ ∑ f, (s.file f).gives r := Finset.sum_nonneg fun _ _ => flag_nonneg _
  rw [h.res r]
  omega

theorem transit_of_op {op : Op} (hops : x.ops = op :: rest) (hr : r ∈ op.res) :
    1 ≤ x.transit r := by
  have hcount : 1 ≤ (x.ops.flatMap Op.res ++ x.call.res).count r := by
    apply List.count_pos_iff.mpr
    simp [hops, hr]
  unfold Proc.transit
  omega

theorem Counts.end_open (h : Counts s) {q : Pipe}
    (hr : Runs s p (.pipeclose (some pi) w :: rest) x) (hq : s.pipe pi = some q) :
    q.isOpen w = true := by
  have hpos := h.supply_pos hr (transit_of_op hr.ops (List.mem_singleton_self _))
  simp only [supply, hq, Option.any_some] at hpos
  by_contra hno
  rw [Bool.not_eq_true] at hno
  rw [hno] at hpos
  exact absurd hpos (by decide)

theorem Counts.page_closed (h : Counts s) (hr : Runs s p (.kfree pi :: rest) x) :
    s.pipe pi = some ⟨false, false⟩ := by
  have hle := le_sum (fun x => frees_nonneg x pi) s.proc p
  have hx : 1 ≤ x.frees pi := by
    have hcount : 1 ≤ x.ops.count (.kfree pi) := List.count_pos_iff.mpr (by simp [hr.ops])
    unfold Proc.frees
    omega
  rw [hr.proc, ← h.page pi] at hle
  by_contra hno
  rw [closedPage, decide_eq_false hno, flag_false] at hle
  omega

theorem supply_setFile (s : State) (f : Fin NFILE) (file : File) (r : Res) :
    (s.setFile f file).supply r = s.supply r := rfl

theorem res_move (h : Move s s') (hp : Procs s) (hs : Counts s) (r : Res) :
    s'.supply r = ∑ f, (s'.file f).gives r + ∑ q, (s'.proc q).transit r := by
  -- a change of ref alone
  have hsame : ∀ f n, ∑ e, ((s.setFile f ((s.file f).setRef n)).file e).gives r =
      ∑ e, (s.file e).gives r := by
    intro f n
    have hgives : ((s.file f).setRef n).gives r = (s.file f).gives r := rfl
    rw [sum_res_setFile, hgives]
    omega
  have hnil : ∀ {l : List Op}, l = [] ++ l := rfl
  cases h with
  | stay => exact hs.res r
  | turn hr hturn =>
    refine res_setProc hs hr.proc rfl ?_
    rw [turn_transit hr.ops hturn]
    omega
  | @opening p x o hr hc =>
    refine res_setProc hs hr.proc rfl ?_
    rw [transit_goto, supply_setIrefs, hc]
    simp [Call.res, setIrefs, count_cons_flag]
  | @dropped p x f rest hr href =>
    refine res_setProc hs hr.proc rfl ?_
    rw [hnil (l := rest), transit_pop hr.ops, hsame, supply_setFile]
    simp [Op.res]
  | @closed p x f rest hr href =>
    have hnone : (s.file f).closed.gives r = 0 := gives_eq_zero rfl r
    refine res_setProc hs hr.proc rfl ?_
    rw [transit_pop hr.ops, sum_res_setFile, release_res, count_toList, hnone, supply_setFile]
    simp [Op.res, File.gives]
  | @pipeclosed p x pi w rest q hr hq =>
    refine res_setProc hs hr.proc rfl ?_
    rw [supply_close hq (hs.end_open hr hq)]
    split
    · rw [show Op.kfree pi :: rest = [Op.kfree pi] ++ rest from rfl, transit_pop hr.ops]
      simp [Op.res, setPipe, count_cons_flag]
    · rw [hnil (l := rest), transit_pop hr.ops]
      simp [Op.res, setPipe, count_cons_flag]
  | @freed p x pi rest hr =>
    refine res_setProc hs hr.proc rfl ?_
    rw [supply_free (hs.page_closed hr), hnil (l := rest), transit_pop hr.ops]
    simp [Op.res, setPipe]
  | @iput p x ip rest hr =>
    refine res_setProc hs hr.proc rfl ?_
    rw [sub_eq_add_neg (s.irefs ip), supply_setIrefs, hnil (l := rest), transit_pop hr.ops]
    simp [Op.res, setIrefs, count_cons_flag]
  | @cleared p x fd rest hr =>
    refine res_setProc hs hr.proc rfl ?_
    rw [hnil (l := rest), transit_pop hr.ops]
    simp [Op.res]
  | @alloc p x f call hr hf hc =>
    refine res_setProc hs hr.proc rfl ?_
    rw [transit_goto, hc.res, take, hsame, supply_setFile]
    simp
  | @opened p x o f fd hr hc hfd =>
    have hfree := (fresh_of_call hs hr hc (List.mem_singleton_self f)).2
    refine res_setProc hs hr.proc rfl ?_
    rw [transit_goto, sum_res_setFile, gives_eq_zero hfree, gives_eq (opened_res _ o), hc,
      supply_setFile]
    simp [Call.res, count_cons_flag]
  | @reserved p x f fd hr hc hfd | @exited p x i hr hi hc =>
    refine res_setProc hs hr.proc rfl ?_
    rw [transit_goto, hc]
    simp [Call.res]
  | @duped p x f fd hr hc | @forkDup p x np i f hr hi hc hf =>
    refine res_setProc hs hr.proc rfl ?_
    rw [transit_goto, hc, hsame, supply_setFile]
    simp [Call.res]
  | @installed p x f fd call hr hc hfd =>
    refine res_setProc hs hr.proc rfl ?_
    rw [transit_goto, hc.res]
    simp
  | @piped p x f0 f1 pi hr hc hpi =>
    have hfree : ∀ f ∈ [f0, f1], (s.file f).type = .FD_NONE := fun f hf =>
      (fresh_of_call hs hr hc hf).2
    have hne : f0 ≠ f1 := by
      have hnodup := hs.nodup p
      rw [hr.proc, hc] at hnodup
      simpa [Call.fresh] using hnodup
    refine res_setProc hs hr.proc rfl ?_
    rw [transit_goto, hc, supply_initPipe hpi,
      sum_res_initPipe hne (hfree f0 (by simp)) (hfree f1 (by simp))]
    simp [Call.res]
    omega
  | @reaped p x hx hz =>
    refine res_setProc hs hx rfl ?_
    show s.supply r - s.supply r = _ - _ + (x.transit r - x.transit r)
    omega
  | @forking p x np y hr hc hy hnp =>
    refine res_both hs hr hy (by rw [hnp]; simp) ?_ rfl
    rw [transit_goto, hc]
    simp [Call.res]
  | @unforked p x np y hr hc hy | @forked p x np y i hr hi hc hy | @forkStored p x np y i f hr hc hy =>
    have hused : y.status = .used := hy ▸ hp.child p np (by rw [hr.proc, hc]; rfl)
    refine res_both hs hr hy (by rw [hused]; simp) ?_ rfl
    rw [transit_goto, hc]
    simp [Call.res]

/-! ## §5. The pages of pipes. -/

theorem page_setProc (h : Counts s) (hx : s.proc p = x)
    (ht : t.proc = s.proc)
    (hpage : closedPage (t.pipe pi) - closedPage (s.pipe pi) = x'.frees pi - x.frees pi) :
    closedPage ((t.setProc p x').pipe pi) = ∑ q, ((t.setProc p x').proc q).frees pi :=
  tally_setProc (fun x => x.frees pi) hx ht (h.page pi) hpage.symm

theorem page_both (h : Counts s) (hr : Runs s p ops x)
    (hy : s.proc np = y) (hnp : y.status ≠ .live) (hx' : x'.frees pi = x.frees pi)
    (hy' : y'.frees pi = y.frees pi) :
    closedPage (((s.setProc np y').setProc p x').pipe pi) =
      ∑ q, (((s.setProc np y').setProc p x').proc q).frees pi :=
  tally_both (fun x => x.frees pi) hr hy hnp (h.page pi) (congrArg₂ (· + ·) hx' hy')

theorem setPipe_self (s : State) (pi : Nat) (q : Option Pipe) : (s.setPipe pi q).pipe pi = q :=
  update_self _ _ _

theorem setPipe_of_ne {pj : Nat} (h : pj ≠ pi) (q : Option Pipe) :
    (s.setPipe pi q).pipe pj = s.pipe pj :=
  update_of_ne h _ _

theorem closedPage_of_open {q : Pipe} (h : q.isOpen w = true) :
    closedPage (some q) = 0 := by
  rw [closedPage, decide_eq_false, flag_false]
  rintro ⟨⟩
  cases w <;> cases h

theorem Pipe.isClosed_iff {q : Pipe} : q.isClosed = true ↔ q = ⟨false, false⟩ := by
  rcases q with ⟨_ | _, _ | _⟩ <;> decide

theorem page_move (h : Move s s') (hp : Procs s) (hs : Counts s) (pi : Nat) :
    closedPage (s'.pipe pi) = ∑ q, (s'.proc q).frees pi := by
  have hnil : ∀ {l : List Op}, l = [] ++ l := rfl
  cases h with
  | stay => exact hs.page pi
  | turn hr hturn =>
    refine page_setProc hs hr.proc rfl ?_
    rw [turn_frees hr.ops hturn]
    omega
  | @dropped p x f rest hr | @iput p x ip rest hr | @cleared p x fd rest hr =>
    refine page_setProc hs hr.proc rfl ?_
    rw [hnil (l := rest), frees_pop hr.ops]
    simp [setFile, setIrefs]
  | @closed p x f rest hr =>
    refine page_setProc hs hr.proc rfl ?_
    rw [frees_pop hr.ops, List.count_eq_zero_of_not_mem (kfree_not_mem_release _ pi)]
    simp [setFile]
  | @pipeclosed p x pj w rest q hr hq =>
    refine page_setProc hs hr.proc rfl ?_
    have hopen := closedPage_of_open (hs.end_open hr hq)
    by_cases hpi : pi = pj
    · subst hpi
      rw [setPipe_self, hq, hopen]
      split
      · next hclosed =>
        rw [Pipe.isClosed_iff.mp hclosed, show Op.kfree pi :: rest = [Op.kfree pi] ++ rest from rfl,
          frees_pop hr.ops]
        simp [closedPage]
      · next hclosed =>
        rw [Pipe.isClosed_iff] at hclosed
        rw [hnil (l := rest), frees_pop hr.ops]
        simp [closedPage, hclosed]
    · rw [setPipe_of_ne hpi]
      split
      · rw [show Op.kfree pj :: rest = [Op.kfree pj] ++ rest from rfl, frees_pop hr.ops]
        simp [Ne.symm hpi]
      · rw [hnil (l := rest), frees_pop hr.ops]
        simp
  | @freed p x pj rest hr =>
    refine page_setProc hs hr.proc rfl ?_
    rw [hnil (l := rest), frees_pop hr.ops]
    by_cases hpi : pi = pj
    · subst hpi
      rw [setPipe_self, hs.page_closed hr]
      simp [closedPage]
    · rw [setPipe_of_ne hpi]
      simp [Ne.symm hpi]
  | @piped p x f0 f1 pj hr hc hpj =>
    refine page_setProc hs hr.proc rfl ?_
    show closedPage ((s.setPipe pj (some ⟨true, true⟩)).pipe pi) - _ = x.frees pi - x.frees pi
    by_cases hpi : pi = pj
    · subst hpi
      rw [setPipe_self, hpj]
      simp [closedPage]
    · rw [setPipe_of_ne hpi]
      omega
  | reaped hx hz =>
    refine page_setProc hs hx rfl ?_
    exact (Int.sub_self _).trans (Int.sub_self _).symm
  | @forking p x np y hr hc hy hnp => exact page_both hs hr hy (by rw [hnp]; exact nofun) rfl rfl
  | @unforked p x np y hr hc hy | @forked p x np y i hr hi hc hy | @forkStored p x np y i f hr hc hy =>
    have hused : y.status = .used := hy ▸ hp.child p np (by rw [hr.proc, hc]; rfl)
    exact page_both hs hr hy (by rw [hused]; exact nofun) rfl rfl
  | @opening p x _ hr | @alloc p x _ _ hr | @opened p x _ _ _ hr | @reserved p x _ _ hr
  | @duped p x _ _ hr | @installed p x _ _ _ hr | @forkDup p x _ _ _ hr | @exited p x _ hr =>
    refine page_setProc hs hr.proc rfl ?_
    show closedPage (s.pipe pi) - closedPage (s.pipe pi) = x.frees pi - x.frees pi
    omega

theorem counts_move (h : Move s s') (hp : Procs s) (hs : Counts s) : Counts s' where
  ref := ref_move h hp hs
  free := free_move h hs
  fresh := fresh_move h hp hs
  nodup := nodup_move h hs
  res := res_move h hp hs
  page := page_move h hp hs

end Counts

end Xv6.FileTable
