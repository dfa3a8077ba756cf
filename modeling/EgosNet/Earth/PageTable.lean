import EgosNet.Foundation.Bits
import EgosNet.Foundation.Fallible
import EgosNet.Foundation.Run
import Mathlib.Data.Finset.Basic
import Mathlib.Data.Int.Order.Basic
import Mathlib.Data.Set.Insert
import Mathlib.Logic.Function.Basic

/-!
# Page tables

`earth/mem_vm.c` keeps a two-level Sv32 page table for each process.  The tables live in the same
four megabytes as the pages of the processes, and all of them come from one allocator.  Nothing
records who owns a page: a table is found through `pid_to_pagetable_base`, a second-level table
through an entry of the first, and a page of a process through an entry of the second.

The allocator is `mem_alloc.c`, which is not part of the repository.  It is a parameter here
(`Allocator`), with what the code relies on as its laws: a page that is handed out is in range,
aligned and not in use, it is zero if that was asked for, and neither handing out nor taking back a
page changes a page that is in use.  That there is no page left is a way for `pmalloc` not to
return.

Memory is a function from the addresses of words to words.  `uint` has 32 bits; the reductions
modulo `2 ^ 32` are where the code may overflow.  An `ASSERT` that fails, like `FATAL`, does not
return (`Stop.fatal`).

The machine at the end has one step for each request to this file, and one for a page being handed
out to somebody who will map it.
-/

namespace EgosNet
namespace Earth

open Foundation

/-! ## The layout of memory -/

def RAM_END : ℕ := 0x80800000
def APPS_PAGES_BASE : ℕ := 0x80400000
def SHELL_WORK_DIR : ℕ := 0x80302000
def RAM_START : ℕ := 0x80000000
def PAGE_SIZE : ℕ := 4096
def APPS_PAGES_CNT : ℕ := (RAM_END - APPS_PAGES_BASE) / PAGE_SIZE
def SDHCI_BASE : ℕ := 0x40000000
def ETH_CTL_BASE : ℕ := 0x41000000
def UART_BASE : ℕ := 0x10000000
def CLINT_BASE : ℕ := 0x02000000
def FLASH_ROM_BASE : ℕ := 0x22000000

def MAX_NPROCESS : ℤ := 16
/-- `GPID_USER_START`. -/
def USER_PID_START : ℤ := 6

def FLAG_NEXT_LEVEL : ℕ := 0x1
def PTE_V : ℕ := 0x001
def PTE_R : ℕ := 0x002
def PTE_W : ℕ := 0x004
def PTE_X : ℕ := 0x008
def PTE_U : ℕ := 0x010
def PTE_A : ℕ := 0x040
def PTE_D : ℕ := 0x080
def LEAF_FLAG : ℕ := PTE_V ||| PTE_R ||| PTE_W ||| PTE_X ||| PTE_U ||| PTE_A ||| PTE_D

/-! ## The allocator -/

/-- The words of memory, by the address of their first byte. -/
abbrev Words := ℕ → ℕ

/-- The address of the page that a word is in. -/
def pageOf (addr : ℕ) : ℕ := addr / PAGE_SIZE * PAGE_SIZE

/-- A page the allocator may hand out. -/
structure IsPage (a : ℕ) : Prop where
  aligned : PAGE_SIZE ∣ a
  base_le : APPS_PAGES_BASE ≤ a
  lt_end : a < RAM_END

/-- `mem_alloc.c`: what it does and what the code of this file relies on. -/
structure Allocator where
  State : Type
  /-- The pages that are in use. -/
  inUse : State → Set ℕ
  /-- `pmalloc(clear_page)`. -/
  pmalloc : State → Words → Bool → Option (State × Words × ℕ)
  /-- `pfree(paddr)`. -/
  pfree : State → Words → ℕ → State × Words
  pmalloc_page : ∀ {h m c h' m' a}, pmalloc h m c = some (h', m', a) → IsPage a
  pmalloc_fresh : ∀ {h m c h' m' a}, pmalloc h m c = some (h', m', a) → a ∉ inUse h
  pmalloc_inUse : ∀ {h m c h' m' a}, pmalloc h m c = some (h', m', a) →
    inUse h' = insert a (inUse h)
  pmalloc_zero : ∀ {h m h' m' a}, pmalloc h m true = some (h', m', a) →
    ∀ i < 1024, m' (a + 4 * i) = 0
  pmalloc_frame : ∀ {h m c h' m' a}, pmalloc h m c = some (h', m', a) →
    ∀ w, pageOf w ∈ inUse h → m' w = m w
  pfree_inUse : ∀ {h m a}, a ∈ inUse h → inUse (pfree h m a).1 = inUse h \ {a}
  pfree_frame : ∀ {h m a}, a ∈ inUse h → ∀ w, pageOf w ∈ inUse h → pageOf w ≠ a →
    (pfree h m a).2 w = m w

/-! ## The state -/

/-- Why the code does not return: an `ASSERT` or a `FATAL`, or there is no page left. -/
inductive Stop where
  | fatal
  | noPage
  deriving DecidableEq

/-- A call of the allocator. -/
inductive AllocCall where
  | pmalloc (a : ℕ)
  | pfree (a : ℕ)
  deriving DecidableEq

/-- Memory, `pid_to_pagetable_base`, the allocator, and the calls that were made to it. -/
structure Vm (al : Allocator) where
  mem : Words
  base : ℤ → ℕ
  heap : al.State
  calls : List AllocCall := []

variable {al : Allocator}

/-- Store a word. -/
def Vm.write (s : Vm al) (addr value : ℕ) : Vm al :=
  { s with mem := Function.update s.mem addr value }

def Vm.pmalloc (s : Vm al) (clearPage : Bool) : Except Stop (Vm al × ℕ) :=
  match al.pmalloc s.heap s.mem clearPage with
  | none => .error .noPage
  | some (h, m, a) =>
    .ok ({ s with heap := h, mem := m, calls := s.calls ++ [.pmalloc a] }, a)

def Vm.pfree (s : Vm al) (a : ℕ) : Vm al :=
  { s with
    heap := (al.pfree s.heap s.mem a).1
    mem := (al.pfree s.heap s.mem a).2
    calls := s.calls ++ [.pfree a] }

/-- `ASSERT`. -/
def assert (c : Prop) [Decidable c] : Except Stop PUnit := ensure c .fatal

/-- `ASSERT(pid > 0 && pid <= MAX_NPROCESS)`. -/
def PidOk (pid : ℤ) : Prop := 0 < pid ∧ pid ≤ MAX_NPROCESS

instance (pid : ℤ) : Decidable (PidOk pid) := inferInstanceAs (Decidable (_ ∧ _))

/-! ## Entries -/

/-- The entry of a first-level table for the second-level table at `addr`. -/
def nextLevel (addr : ℕ) : ℕ := ((addr >>> 12) <<< 10) % 2 ^ 32 ||| FLAG_NEXT_LEVEL

/-- The entry of a second-level table for the page at `addr`. -/
def leaf (addr flag : ℕ) : ℕ := (addr >>> 2) ||| flag

/-- `(pte << 2) & ~0xfff`. -/
def pteAddr (pte : ℕ) : ℕ := (pte <<< 2) % 2 ^ 32 &&& 0xfffff000

/-! ## The functions -/

/-- The second-level table for the first-level entry at `addr`, allocated if there is none.  This is
the first half of `setup_identity_region`. -/
def secondLevel (s : Vm al) (addr : ℕ) : Except Stop (Vm al × ℕ) :=
  if s.mem addr = 0 then do
    let (s, l2Pa) ← s.pmalloc true
    pure (s.write addr (nextLevel l2Pa), l2Pa)
  else do
    assert (s.mem addr &&& FLAG_NEXT_LEVEL ≠ 0)
    pure (s, pteAddr (s.mem addr))

/-- The loop of `setup_identity_region`. -/
def identityEntry (addr flag l2Pa l2Idx : ℕ) (s : Vm al) (i : ℕ) : Except Stop (Vm al) := do
  assert (s.mem (l2Pa + 4 * (l2Idx + i)) = 0)
  pure (s.write (l2Pa + 4 * (l2Idx + i)) (leaf ((addr + i * PAGE_SIZE) % 2 ^ 32) flag))

/-- `setup_identity_region`. -/
def setupIdentityRegion (s : Vm al) (pid : ℤ) (addr npages flag : ℕ) : Except Stop (Vm al) := do
  assert (npages ≤ 1024)
  assert (addr &&& 0xFFF = 0)
  let root := s.base pid
  assert (root ≠ 0)
  let l1Idx := addr >>> 22
  let (s, l2Pa) ← secondLevel s (root + 4 * l1Idx)
  let l2Idx := (addr >>> 12) &&& 0x3FF
  (List.range npages).foldlM (identityEntry addr flag l2Pa l2Idx) s

/-- The branch of `walk` for an empty first-level entry. -/
def allocMissing (s : Vm al) (addr : ℕ) (alloc : Bool) : Except Stop (Vm al) :=
  if s.mem addr = 0 then
    if alloc then do
      let (s, l2Pa) ← s.pmalloc true
      pure (s.write addr (nextLevel l2Pa))
    else .error .fatal
  else pure s

/-- `walk`. -/
def walk (s : Vm al) (root va : ℕ) (alloc : Bool) : Except Stop (Vm al × ℕ) := do
  assert (root ≠ 0)
  let l1Idx := va >>> 22
  let s ← allocMissing s (root + 4 * l1Idx) alloc
  assert (s.mem (root + 4 * l1Idx) &&& FLAG_NEXT_LEVEL ≠ 0)
  let l2Pa := pteAddr (s.mem (root + 4 * l1Idx))
  let l2Idx := (va >>> 12) &&& 0x3FF
  pure (s, l2Pa + 4 * l2Idx)

/-- The regions that are mapped to themselves, with their numbers of pages. -/
def identityRegions (pid : ℤ) : List (ℕ × ℕ) :=
  if pid < USER_PID_START then
    [(RAM_START, 512), (APPS_PAGES_BASE, 1024), (CLINT_BASE, 16), (UART_BASE, 1), (SDHCI_BASE, 1),
      (ETH_CTL_BASE, 32), (FLASH_ROM_BASE, 1024), (SHELL_WORK_DIR, 1)]
  else [(SHELL_WORK_DIR, 1)]

/-- The branch of `page_table_map` for a process without a page table. -/
def newPageTable (s : Vm al) (pid : ℤ) : Except Stop (Vm al) :=
  if s.base pid = 0 then do
    let (s, root) ← s.pmalloc true
    let s : Vm al := { s with base := Function.update s.base pid root }
    (identityRegions pid).foldlM (fun s r => setupIdentityRegion s pid r.1 r.2 LEAF_FLAG) s
  else pure s

/-- `page_table_map`. -/
def pageTableMap (s : Vm al) (pid : ℤ) (vpageNo ppageId : ℕ) : Except Stop (Vm al) := do
  assert (PidOk pid)
  let va := vpageNo * PAGE_SIZE % 2 ^ 32
  let pa := (ppageId * PAGE_SIZE + APPS_PAGES_BASE) % 2 ^ 32
  let s ← newPageTable s pid
  let (s, l2Pte) ← walk s (s.base pid) va true
  assert (s.mem l2Pte = 0)
  pure (s.write l2Pte (leaf pa LEAF_FLAG))

/-- `page_table_translate`. -/
def pageTableTranslate (s : Vm al) (pid : ℤ) (va : ℕ) : Except Stop ℕ := do
  assert (PidOk pid)
  let root := s.base pid
  assert (root ≠ 0)
  let (s, l2Pte) ← walk s root va false
  assert (s.mem l2Pte &&& PTE_V ≠ 0)
  pure (pteAddr (s.mem l2Pte) ||| (va &&& 0xFFF))

/-- The inner loop of `page_table_free`. -/
def freeLeaf (l1Idx l2Pa : ℕ) (s : Vm al) (l2Idx : ℕ) : Vm al :=
  let l2Pte := s.mem (l2Pa + 4 * l2Idx)
  if l2Pte &&& PTE_V = 0 then s
  else
    let pa := pteAddr l2Pte
    let va := (l1Idx <<< 22) ||| (l2Idx <<< 12)
    if pa ≠ va ∧ APPS_PAGES_BASE ≤ pa ∧ pa < RAM_END then s.pfree pa else s

/-- The outer loop of `page_table_free`. -/
def freeTable (root : ℕ) (s : Vm al) (l1Idx : ℕ) : Vm al :=
  let l1Pte := s.mem (root + 4 * l1Idx)
  if l1Pte &&& PTE_V = 0 then s
  else
    let l2Pa := pteAddr l1Pte
    ((List.range 1024).foldl (freeLeaf l1Idx l2Pa) s).pfree l2Pa

/-- `page_table_free`. -/
def pageTableFree (s : Vm al) (pid : ℤ) : Except Stop (Vm al) := do
  assert (PidOk pid)
  let root := s.base pid
  if root = 0 then pure s
  else
    let s := ((List.range 1024).foldl (freeTable root) s).pfree root
    pure { s with base := Function.update s.base pid 0 }

/-! ## The machine -/

/-- The state of this file, and the pages that have been handed out and not been mapped yet. -/
structure World (al : Allocator) where
  vm : Vm al
  held : Finset ℕ

/-- A page is handed out; or one of the two requests. -/
inductive Op where
  | alloc (clearPage : Bool)
  | map (pid : ℤ) (vpageNo ppageId : ℕ)
  | free (pid : ℤ)
  deriving DecidableEq

/-- What a step shows: the request, and the calls of the allocator it made. -/
structure Done where
  op : Op
  calls : List AllocCall
  deriving DecidableEq

/-- The address of the page with this number. -/
def pageAddr (ppageId : ℕ) : ℕ := APPS_PAGES_BASE + ppageId * PAGE_SIZE

/-- What a request does to the state of this file. -/
def perform (s : Vm al) : Op → Except Stop (Vm al)
  | .alloc clearPage => do
    let (s, _) ← s.pmalloc clearPage
    pure s
  | .map pid vpageNo ppageId => pageTableMap s pid vpageNo ppageId
  | .free pid => pageTableFree s pid

/-- What it does to the pages that are waiting to be mapped. -/
def hold (held : Finset ℕ) (calls : List AllocCall) : Op → Finset ℕ
  | .alloc _ => calls.foldl (fun held c => match c with
    | .pmalloc a => insert a held
    | .pfree _ => held) held
  | .map _ _ ppageId => held.erase (pageAddr ppageId)
  | .free _ => held

/-- One request. -/
def vmStep (w : World al) (i : Op) : Option (World al × Done) :=
  match perform { w.vm with calls := [] } i with
  | .error _ => none
  | .ok s => some (⟨s, hold w.held s.calls i⟩, ⟨i, s.calls⟩)

/-- Nothing is mapped and nothing is waiting; memory and the allocator are in any state. -/
def World.init (mem : Words) (heap : al.State) : World al :=
  ⟨{ mem := mem, base := fun _ => 0, heap := heap }, ∅⟩

end Earth
end EgosNet
