/-
  Xv6.Vm.PageTable — physical pages and the three-level user page table.

  Each slot holds the child node itself instead of its address: no page-table page is shared
  between two slots, and a slot whose PTE_V bit is clear holds `none`.
-/
import Mathlib

namespace Xv6

/-! ## §1. Pages and addresses (riscv.h, memlayout.h). -/

/-- A physical page, named by its address. -/
abbrev Pa := Nat

def PGSIZE : Nat := 4096

def MAXVA : Nat := 2 ^ 38

def TRAMPOLINE : Nat := MAXVA - PGSIZE

def TRAPFRAME : Nat := TRAMPOLINE - PGSIZE

def PGROUNDUP (sz : Nat) : Nat := (sz + PGSIZE - 1) / PGSIZE * PGSIZE

/-! ## §2. The tree of page-table pages. -/

structure Leaf where
  pa : Pa
  flags : Nat
  deriving DecidableEq

structure Node (α : Type) where
  page : Pa
  slot : Fin 512 → Option α

abbrev Pagetable := Node (Node (Node Leaf))

end Xv6
