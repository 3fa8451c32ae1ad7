/-
  Xv6.Log.Invariant — what the disk, the cache and the header mean in each phase of
  the commit and of the recovery.

  Up to the write of the header the disk stands for `settled`, the home blocks after the
  commits that have returned, and from then on for `target` (`Recoverable`).
-/
import Xv6.Log.Machine

namespace Xv6.LogLayer

open Lib Machine List

/-! ## §1. The stores a state stands for. -/

namespace Machine

/-- The home blocks after the commits that have returned. -/
def settled (m : Machine) : Nat → Block := replayTxns m.commits m.base

/-- The home blocks after the commit in progress, if there is one. -/
def target (m : Machine) : Nat → Block := replayTxns (m.commits ++ m.inflight.toList) m.base

def header (m : Machine) : List Nat := readHead (m.disk m.log.start)

def logEntries (m : Machine) : List (Nat × Block) :=
  m.header.mapIdx fun i b => (b, m.disk (m.logBlock i))

/-- The home blocks of the disk are those of `T`. -/
def DiskIs (m : Machine) (T : Nat → Block) : Prop := ∀ b, m.Home b → m.disk b = T b

/-- The home blocks as `bread` returns them are those of `T`. -/
def ViewIs (m : Machine) (T : Nat → Block) : Prop := ∀ b, m.Home b → m.bread b = T b

def SlotsHold (m : Machine) (k : Nat) (T : Nat → Block) : Prop :=
  ∀ i b, i < k → m.log.lh[i]? = some b → m.disk (m.logBlock i) = T b

structure Fits (m : Machine) (lh : List Nat) : Prop where
  home : ∀ b ∈ lh, m.Home b
  nodup : lh.Nodup
  room : lh.length < m.log.size

/-- Recovering from this disk gives `T`. -/
structure Recoverable (m : Machine) (T : Nat → Block) : Prop where
  fits : m.Fits m.header
  pending : Pending m.Home m.logEntries m.disk T

end Machine

/-! ## §2. Frame facts. -/

section Frame

variable {m : Machine} {b i : Nat} {T : Nat → Block}

theorem home_ne_start (hsize : 1 ≤ m.log.size) (hb : m.Home b) : b ≠ m.log.start := by
  unfold Machine.Home at hb
  omega

theorem home_ne_logBlock (hi : i + 1 < m.log.size) (hb : m.Home b) : b ≠ m.logBlock i := by
  unfold Machine.Home at hb
  unfold Machine.logBlock
  omega

theorem logBlock_ne_start : m.logBlock i ≠ m.log.start := by
  unfold Machine.logBlock
  omega

theorem logBlock_inj {j : Nat} (h : m.logBlock i = m.logBlock j) : i = j := by
  unfold Machine.logBlock at h
  omega

theorem logEntries_congr {m' : Machine} (hstart : m'.log.start = m.log.start)
    (hhead : m'.disk m.log.start = m.disk m.log.start)
    (hslots : ∀ i, i < m.header.length → m'.disk (m.logBlock i) = m.disk (m.logBlock i)) :
    m'.logEntries = m.logEntries := by
  have hh : m'.header = m.header := by
    unfold Machine.header
    rw [hstart, hhead]
  unfold Machine.logEntries
  rw [hh]
  apply ext_getElem
  · simp
  · intro i h1 h2
    have hi : i < m.header.length := by simpa using h2
    have hl : m'.logBlock i = m.logBlock i := by unfold Machine.logBlock; rw [hstart]
    simp only [getElem_mapIdx, hl, hslots i hi]

theorem mem_logEntries {e : Nat × Block} (he : e ∈ m.logEntries) :
    ∃ i, m.header[i]? = some e.1 ∧ e.2 = m.disk (m.logBlock i) := by
  unfold Machine.logEntries at he
  obtain ⟨i, hi, heq⟩ := mem_iff_getElem.mp he
  have hi' : i < m.header.length := by simpa using hi
  rw [getElem_mapIdx] at heq
  subst heq
  exact ⟨i, by simp [hi'], rfl⟩

theorem logEntries_mem (hi : m.header[i]? = some b) :
    (b, m.disk (m.logBlock i)) ∈ m.logEntries := by
  unfold Machine.logEntries
  obtain ⟨hlt, rfl⟩ := List.getElem?_eq_some_iff.mp hi
  exact mem_iff_getElem.mpr ⟨i, by simpa using hlt, by simp⟩

theorem recoverable_of_empty (hsize : 1 ≤ m.log.size) (hh : m.header = []) (hd : m.DiskIs T) :
    m.Recoverable T := by
  refine ⟨⟨?_, ?_, ?_⟩, ?_⟩
  · rw [hh]; simp
  · rw [hh]; simp
  · rw [hh]; exact hsize
  · refine Pending.of_eq (fun e he => ?_) hd
    obtain ⟨i, hi, _⟩ := mem_logEntries he
    rw [hh] at hi
    simp at hi

theorem Machine.Recoverable.congr {m' : Machine} (h : m.Recoverable T) (hdisk : m'.disk = m.disk)
    (hstart : m'.log.start = m.log.start) (hsize : m'.log.size = m.log.size) :
    m'.Recoverable T := by
  have hhome : m'.Home = m.Home := by
    funext b
    unfold Machine.Home
    rw [hstart, hsize]
  have hhead : m'.header = m.header := by
    unfold Machine.header
    rw [hstart, hdisk]
  have hent : m'.logEntries = m.logEntries :=
    logEntries_congr hstart (by rw [hdisk]) (fun i _ => by rw [hdisk])
  refine ⟨⟨?_, ?_, ?_⟩, ?_⟩
  · rw [hhead, hhome]; exact h.fits.home
  · rw [hhead]; exact h.fits.nodup
  · rw [hhead, hsize]; exact h.fits.room
  · rw [hhome, hent, hdisk]; exact h.pending

end Frame

/-! ## §3. The cache. -/

/-- Buffers outside `dirty` agree with the disk; those inside are cached and
cannot be recycled. -/
structure CacheInv (m : Machine) (dirty : List Nat) : Prop where
  clean : ∀ b v, m.cache b = some v → b ∉ dirty → v = m.disk b
  held : ∀ b ∈ dirty, (m.cache b).isSome ∧ 0 < m.pins b

section Cache

variable {m : Machine} {dirty : List Nat} {b : Nat}

theorem CacheInv.bread_eq (h : CacheInv m dirty) (hb : b ∉ dirty) : m.bread b = m.disk b := by
  unfold Machine.bread
  cases hc : m.cache b with
  | none => rfl
  | some v => exact h.clean b v hc hb

theorem bread_fill (m : Machine) (a b : Nat) : (m.fill a).bread b = m.bread b := by
  unfold Machine.fill Machine.bread
  by_cases hba : b = a
  · subst hba; simp
  · simp [hba]

theorem bread_bwrite (m : Machine) (a b : Nat) (v : Block) :
    (m.bwrite a v).bread b = if b = a then v else m.bread b := by
  unfold Machine.bwrite Machine.bread
  by_cases hba : b = a
  · subst hba; simp
  · simp [hba]

theorem CacheInv.fill (h : CacheInv m dirty) (a : Nat) : CacheInv (m.fill a) dirty := by
  refine ⟨fun b v hc hb => ?_, fun b hb => ?_⟩
  · by_cases hba : b = a
    · subst hba
      have hv : m.bread b = v := by simpa [Machine.fill] using hc
      rw [← hv]
      exact h.bread_eq hb
    · exact h.clean b v (by simpa [Machine.fill, hba] using hc) hb
  · refine ⟨?_, (h.held b hb).2⟩
    by_cases hba : b = a
    · subst hba; simp [Machine.fill]
    · simpa [Machine.fill, hba] using (h.held b hb).1

theorem CacheInv.bwrite (h : CacheInv m dirty) (a : Nat) (v : Block) :
    CacheInv (m.bwrite a v) dirty := by
  refine ⟨fun b w hc hb => ?_, fun b hb => ?_⟩
  · by_cases hba : b = a
    · subst hba
      simpa [Machine.bwrite] using hc.symm
    · have hw := h.clean b w (by simpa [Machine.bwrite, hba] using hc) hb
      simpa [Machine.bwrite, hba] using hw
  · refine ⟨?_, (h.held b hb).2⟩
    by_cases hba : b = a
    · subst hba; simp [Machine.bwrite]
    · simpa [Machine.bwrite, hba] using (h.held b hb).1

theorem CacheInv.bunpin (h : CacheInv m (b :: dirty)) (hb : b ∉ dirty)
    (hclean : ∀ v, m.cache b = some v → v = m.disk b) : CacheInv (m.bunpin b) dirty := by
  refine ⟨fun a v hc ha => ?_, fun a ha => ?_⟩
  · by_cases hab : a = b
    · subst hab; exact hclean v hc
    · exact h.clean a v hc (by simp [hab, ha])
  · have hab : a ≠ b := fun he => hb (he ▸ ha)
    obtain ⟨hc, hp⟩ := h.held a (mem_cons_of_mem _ ha)
    exact ⟨hc, by simpa [Machine.bunpin, hab] using hp⟩

theorem CacheInv.evict (h : CacheInv m dirty) (hp : m.pins b = 0) :
    CacheInv { m with cache := Function.update m.cache b none } dirty ∧
      ∀ a, ({ m with cache := Function.update m.cache b none } : Machine).bread a = m.bread a := by
  have hb : b ∉ dirty := fun hb => by have := (h.held b hb).2; omega
  refine ⟨⟨fun a v hc ha => ?_, fun a ha => ?_⟩, fun a => ?_⟩
  · by_cases hab : a = b
    · subst hab; simp at hc
    · exact h.clean a v (by simpa [hab] using hc) ha
  · have hab : a ≠ b := fun he => hb (he ▸ ha)
    simpa [hab] using h.held a ha
  · by_cases hab : a = b
    · subst hab
      rw [h.bread_eq hb]
      simp [Machine.bread]
    · simp [Machine.bread, hab]

end Cache

end Xv6.LogLayer
