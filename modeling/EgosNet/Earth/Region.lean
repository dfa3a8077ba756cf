import EgosNet.Earth.Tables

/-!
# Regions that are mapped to themselves

`setup_identity_region` has a contract of its own, in the comment above it: it maps the virtual
pages of a region to the physical pages at the same addresses, with the permission bits it is
given.  `Owns.setupIdentityRegion` is about the regions that `page_table_map` asks for.  This file
is about any region.

A virtual page has an index in the root and one in a second-level table.  The function takes the
index in the root once, from the start of the region, and lets the other one grow with the loop.
From the 1024th entry on it therefore writes behind the table it has chosen, into the page of
memory that comes next.  The virtual pages beyond the boundary of four megabytes are looked up in
another table, the one of the next entry of the root.  Both are the same page only by chance.

* `Contract` is what the comment promises.
* `Tables.setupIdentityRegions`: regions that lie in one table each, like those of `page_table_map`,
  may be set up one after the other.
* `setupIdentityRegion_meets_iff`: the promise is kept exactly for a region that fits into one
  table, or goes on into a table that happens to lie behind the first (`Fits`).
-/

namespace EgosNet
namespace Earth

open Foundation

variable {al : Allocator} {s s' s₁ : Vm al} {pid : ℤ} {addr npages flag a c l1 l2 k v : ℕ}

/-! ## The contract -/

/-- A page of the page table: the root, or a table that an entry of it points to. -/
def TablePage (s : Vm al) (pid : ℤ) (a : ℕ) : Prop :=
  a = s.base pid ∨ ∃ l1 < 1024, tableAt s pid l1 = some a

/-- Memory as the allocator leaves it, if it has to be asked for a table; the function itself has
not written anything yet. -/
def allocated (s : Vm al) (pid : ℤ) (l1Idx : ℕ) : Words :=
  if s.mem (s.base pid + 4 * l1Idx) = 0 then
    match al.pmalloc s.heap s.mem true with
    | some (_, m, _) => m
    | none => s.mem
  else s.mem

/-- **What `setup_identity_region` promises.** -/
structure Contract (s : Vm al) (pid : ℤ) (addr npages flag : ℕ) (s' : Vm al) : Prop where
  mapped : ∀ v, InRegion (addr, npages) v → translates s' pid v = some (v * PAGE_SIZE, flag)
  others : ∀ v < 2 ^ 20, ¬ InRegion (addr, npages) v → translates s' pid v = translates s pid v
  /-- Whatever is written is in the page table. -/
  inside : ∀ w, s'.mem w ≠ allocated s pid (addr / 2 ^ 22) w → TablePage s' pid (pageOf w)

/-- The promise is kept, unless there is no page left for a table. -/
def Meets (s : Vm al) (pid : ℤ) (addr npages flag : ℕ) : Prop :=
  Ends (setupIdentityRegion s pid addr npages flag) (Contract s pid addr npages flag)
    (fun e => e = .noPage)

/-- The table for an entry of the root: the one that is there, or the page that the allocator hands
out next. -/
def tableFor (s : Vm al) (pid : ℤ) (l1Idx : ℕ) : Option ℕ :=
  if s.mem (s.base pid + 4 * l1Idx) = 0 then (al.pmalloc s.heap s.mem true).map fun r => r.2.2
  else tableAt s pid l1Idx

/-- Permission bits are the ten low bits of an entry, and it has to be valid. -/
def PermissionBits (flag : ℕ) : Prop := flag < 2 ^ 10 ∧ flag &&& PTE_V ≠ 0

instance (flag : ℕ) : Decidable (PermissionBits flag) := inferInstanceAs (Decidable (_ ∧ _))

/-- The region fits into one table; or it goes on into the next page of memory, and that is the
table for the next entry of the root. -/
def Fits (s : Vm al) (pid : ℤ) (addr npages a : ℕ) : Prop :=
  addr / PAGE_SIZE % 1024 + npages ≤ 1024 ∨
    tableAt s pid (addr / 2 ^ 22 + 1) = some (a + PAGE_SIZE)

instance (s : Vm al) (pid : ℤ) (addr npages a : ℕ) : Decidable (Fits s pid addr npages a) :=
  inferInstanceAs (Decidable (_ ∨ _))

/-! ## The table -/

/-- The first half of the function: the table at `a` is in place, and no page is translated in
another way. -/
structure Prepared (s : Vm al) (pid : ℤ) (l1 : ℕ) (s₁ : Vm al) (a : ℕ) : Prop where
  chosen : tableFor s pid l1 = some a
  base : s₁.base = s.base
  tables : Tables s₁ pid
  table : tableAt s₁ pid l1 = some a
  rest : ∀ k < 1024, k ≠ l1 → tableAt s₁ pid k = tableAt s pid k
  same : ∀ v < 2 ^ 20, translates s₁ pid v = translates s pid v
  mem : ∀ w, w ≠ s.base pid + 4 * l1 → s₁.mem w = allocated s pid l1 w

/-- There is a table already. -/
theorem Tables.prepared (h : Tables s pid) (ha : tableAt s pid l1 = some a) :
    Prepared s pid l1 s a := by
  have hne := entry_ne_zero ha
  refine ⟨?_, rfl, h, ha, fun _ _ _ => rfl, fun _ _ => rfl, fun w _ => ?_⟩
  · unfold tableFor
    rw [if_neg hne, ha]
  · unfold allocated
    rw [if_neg hne]

/-- A table is made. -/
theorem Tables.newTable {h' : al.State} {m' : Words} (h : Tables s pid) (hl1 : l1 < 1024)
    (hz : s.mem (s.base pid + 4 * l1) = 0) (hp : al.pmalloc s.heap s.mem true = some (h', m', a))
    (calls : List AllocCall) :
    Prepared s pid l1 ((Vm.mk m' s.base h' calls).write (s.base pid + 4 * l1) (nextLevel a)) a := by
  have hlink := h.linked hl1 hp calls
  refine ⟨?_, rfl, hlink.tables h, hlink.tableAt_self, fun k hk hkl => hlink.tableAt_of_ne hk hkl,
    fun v hv => hlink.translates_eq hz hv, fun w hw => ?_⟩
  · unfold tableFor
    rw [if_pos hz, hp]
    rfl
  · unfold allocated
    rw [if_pos hz, hp]
    exact Function.update_of_ne hw _ _

/-- **The first half of `setup_identity_region`.** -/
theorem Tables.secondLevel (h : Tables s pid) (hl1 : l1 < 1024) :
    Ends (Earth.secondLevel s (s.base pid + 4 * l1)) (fun r => Prepared s pid l1 r.1 r.2)
      (fun e => e = .noPage ∧ tableFor s pid l1 = none) := by
  unfold Earth.secondLevel
  split_ifs with hz
  · unfold Vm.pmalloc
    cases hp : al.pmalloc s.heap s.mem true with
    | none =>
      refine ends_error ⟨rfl, ?_⟩
      unfold tableFor
      rw [if_pos hz, hp]
      rfl
    | some r =>
      obtain ⟨h', m', a⟩ := r
      exact ends_ok (h.newTable hl1 hz hp _)
  · have hvalid := (h.entry hl1).resolve_left hz
    refine ends_ensure (fun hinv => absurd hvalid hinv) fun _ => ends_pure ?_
    exact h.prepared (tableAt_eq_some.mpr ⟨hvalid, rfl⟩)

/-! ## The loop -/

/-- What the loop has done after `n` rounds: it has found the entries empty, has written them, and
nothing else. -/
structure Stores (s : Vm al) (addr flag a l2 n : ℕ) (s' : Vm al) : Prop where
  base : s'.base = s.base
  heap : s'.heap = s.heap
  empty : ∀ i < n, s.mem (a + 4 * (l2 + i)) = 0
  stored : ∀ i < n, s'.mem (a + 4 * (l2 + i)) = leaf ((addr + i * PAGE_SIZE) % 2 ^ 32) flag
  rest : ∀ w, (∀ i < n, w ≠ a + 4 * (l2 + i)) → s'.mem w = s.mem w

/-- One round. -/
theorem Stores.identityEntry {n : ℕ} (h : Stores s addr flag a l2 n s') :
    Ends (Earth.identityEntry addr flag a l2 s' n) (Stores s addr flag a l2 (n + 1))
      (fun e => e = .fatal ∧ s.mem (a + 4 * (l2 + n)) ≠ 0) := by
  have hother : ∀ i < n, a + 4 * (l2 + n) ≠ a + 4 * (l2 + i) := fun i hi => by omega
  have hsame := h.rest _ hother
  unfold Earth.identityEntry
  refine ends_ensure (fun hne => ⟨rfl, ?_⟩) fun hz => ends_pure ⟨h.base, h.heap, ?_, ?_, ?_⟩
  · rwa [hsame] at hne
  · intro i hi
    rcases Nat.lt_succ_iff_lt_or_eq.mp hi with hi | rfl
    · exact h.empty i hi
    · rwa [hsame] at hz
  · intro i hi
    rcases Nat.lt_succ_iff_lt_or_eq.mp hi with hi | rfl
    · rw [← h.stored i hi]
      exact Function.update_of_ne (hother i hi).symm _ _
    · exact Function.update_self _ _ _
  · intro w hw
    rw [← h.rest w fun i hi => hw i (Nat.lt_succ_of_lt hi)]
    exact Function.update_of_ne (hw n (Nat.lt_succ_self n)) _ _

/-- **The loop of `setup_identity_region`.**  It stops only at an entry that is not empty. -/
theorem stores_foldlM (s : Vm al) (addr flag a l2 n : ℕ) :
    Ends ((List.range n).foldlM (identityEntry addr flag a l2) s) (Stores s addr flag a l2 n)
      (fun e => e = .fatal ∧ ∃ i < n, s.mem (a + 4 * (l2 + i)) ≠ 0) := by
  have hloop := Ends.foldlM (P := fun before => Stores s addr flag a l2 before.length)
    (E := fun e => e = Stop.fatal ∧ ∃ i < n, s.mem (a + 4 * (l2 + i)) ≠ 0) (List.range n)
    (f := identityEntry addr flag a l2) (s := s) ?_ ?_
  · rwa [List.length_range] at hloop
  · refine ⟨rfl, rfl, fun i hi => ?_, fun i hi => ?_, fun _ _ => rfl⟩
    · exact absurd hi (Nat.not_lt_zero i)
    · exact absurd hi (Nat.not_lt_zero i)
  · intro before i after t hl ht
    obtain ⟨rfl, hi⟩ := eq_length_of_range hl
    rw [List.length_append, List.length_singleton]
    refine ht.identityEntry.mono (fun _ h => h) ?_
    rintro e ⟨rfl, hne⟩
    exact ⟨rfl, _, hi, hne⟩

/-! ## When the promise is kept -/

/-- The pages of a region, counted from its start. -/
theorem inRegion_iff (hal : addr % PAGE_SIZE = 0) :
    InRegion (addr, npages) v ↔ ∃ i < npages, v = addr / PAGE_SIZE + i := by
  unfold InRegion PAGE_SIZE at *
  dsimp only
  constructor
  · rintro ⟨hle, hlt⟩
    exact ⟨v - addr / 4096, by omega, by omega⟩
  · rintro ⟨i, hi, rfl⟩
    omega

/-- **`setup_identity_region` is its first half and its loop.** -/
theorem Tables.setupIdentityRegion (h : Tables s pid) (flag : ℕ) (haddr : addr < 2 ^ 32)
    (hal : addr % PAGE_SIZE = 0) (hn : npages ≤ 1024) :
    Earth.setupIdentityRegion s pid addr npages flag = .error .noPage ∧
        tableFor s pid (addr / 2 ^ 22) = none ∨
      ∃ s₁ a, Prepared s pid (addr / 2 ^ 22) s₁ a ∧
        Ends (Earth.setupIdentityRegion s pid addr npages flag)
          (Stores s₁ addr flag a (addr / PAGE_SIZE % 1024) npages)
          (fun e => e = .fatal ∧
            ∃ i < npages, s₁.mem (a + 4 * (addr / PAGE_SIZE % 1024 + i)) ≠ 0) := by
  have hlow : addr &&& 0xFFF = 0 := by
    rw [show (0xFFF : ℕ) = 2 ^ 12 - 1 by norm_num, low_bits]
    exact hal
  have hfirst := h.secondLevel (show addr / 2 ^ 22 < 1024 by omega)
  unfold Earth.setupIdentityRegion assert
  dsimp only
  rw [ensure_of hn, ensure_of hlow, ensure_of h.root.1.ne_zero, l1_index, l2_index]
  cases hr : Earth.secondLevel s (s.base pid + 4 * (addr / 2 ^ 22)) with
  | error e =>
    rw [hr] at hfirst
    obtain ⟨rfl, hnone⟩ := hfirst
    exact Or.inl ⟨rfl, hnone⟩
  | ok r =>
    rw [hr] at hfirst
    exact Or.inr ⟨r.1, r.2, hfirst, stores_foldlM r.1 addr flag r.2 _ npages⟩

/-- The entry that the loop writes in round `i` is the one for page `i` of the region. -/
def Covers (s : Vm al) (pid : ℤ) (addr npages a : ℕ) : Prop :=
  ∀ i < npages, ∃ c, tableAt s pid ((addr / PAGE_SIZE + i) / 1024) = some c ∧
    a + 4 * (addr / PAGE_SIZE % 1024 + i) = c + 4 * ((addr / PAGE_SIZE + i) % 1024)

/-- A region that fits. -/
theorem Prepared.covers (hp : Prepared s pid (addr / 2 ^ 22) s₁ a)
    (hn : npages ≤ 1024) (hend : addr + npages * PAGE_SIZE ≤ 2 ^ 32)
    (hfits : Fits s pid addr npages a) : Covers s₁ pid addr npages a := by
  unfold Fits PAGE_SIZE at *
  intro i hi
  unfold PAGE_SIZE
  by_cases hin : addr / 4096 % 1024 + i < 1024
  · refine ⟨a, ?_, by omega⟩
    rw [show (addr / 4096 + i) / 1024 = addr / 2 ^ 22 by omega]
    exact hp.table
  · -- behind the table
    have hnext := hfits.resolve_left (by omega)
    refine ⟨a + 4096, ?_, by omega⟩
    rw [show (addr / 4096 + i) / 1024 = addr / 2 ^ 22 + 1 by omega, ← hnext]
    exact hp.rest _ (by omega) (by omega)

/-- Then the loop finds the entries empty. -/
theorem Covers.empty (h : Covers s pid addr npages a) (ht : Tables s pid)
    (hal : addr % PAGE_SIZE = 0) (hend : addr + npages * PAGE_SIZE ≤ 2 ^ 32)
    (hfree : ∀ v, InRegion (addr, npages) v → translates s pid v = none) {i : ℕ}
    (hi : i < npages) : s.mem (a + 4 * (addr / PAGE_SIZE % 1024 + i)) = 0 := by
  obtain ⟨c, hc, heq⟩ := h i hi
  rw [heq]
  refine ht.leaf_eq_zero ?_ (hfree _ ((inRegion_iff hal).mpr ⟨i, hi, rfl⟩)) hc
  unfold PAGE_SIZE at *
  omega

/-- An entry with permission bits. -/
theorem leaf_bits (hflag : flag < 2 ^ 10) : leaf (v * PAGE_SIZE) flag = v * 1024 + flag := by
  have hshift : (v * PAGE_SIZE) >>> 2 = v * 2 ^ 10 := by
    rw [Nat.shiftRight_eq_div_pow]
    unfold PAGE_SIZE
    omega
  unfold leaf
  rw [hshift, mul_or v hflag]
  norm_num

/-- A page whose entry was stored with permission bits. -/
theorem translates_of_leaf (hv : v < 2 ^ 20) (hflag : PermissionBits flag)
    (ht : tableAt s pid (v / 1024) = some c)
    (hm : s.mem (c + 4 * (v % 1024)) = leaf (v * PAGE_SIZE) flag) :
    translates s pid v = some (v * PAGE_SIZE, flag) := by
  obtain ⟨hbits, hvalid⟩ := hflag
  have hentry : (v * 1024 + flag) &&& PTE_V ≠ 0 := by
    unfold PTE_V at *
    rw [Nat.and_one_is_mod] at *
    omega
  have hframe : pteAddr (v * 1024 + flag) = v * PAGE_SIZE := by
    rw [pteAddr_eq (by omega)]
    unfold PAGE_SIZE
    omega
  rw [leaf_bits hbits] at hm
  unfold translates
  rw [ht, Option.bind_some, hm, if_neg hentry, hframe]
  congr
  omega

section Covers

variable (h : Covers s₁ pid addr npages a) (ht : Tables s₁ pid)
  (hend : addr + npages * PAGE_SIZE ≤ 2 ^ 32)
  (hst : Stores s₁ addr flag a (addr / PAGE_SIZE % 1024) npages s')
include hend

/-- The pages of the region have twenty bits. -/
theorem page_lt {i : ℕ} (hi : i < npages) : addr / PAGE_SIZE + i < 2 ^ 20 := by
  unfold PAGE_SIZE at *
  omega

include h ht hst

/-- The root is not written. -/
theorem Covers.root_eq (hk : k < 1024) :
    s'.mem (s₁.base pid + 4 * k) = s₁.mem (s₁.base pid + 4 * k) := by
  refine hst.rest _ fun i hi heq => ?_
  obtain ⟨c, hc, hword⟩ := h i hi
  have hv := page_lt hend hi
  exact ht.ne_root (by omega) hc (Nat.mod_lt _ (by norm_num)) hk (hword.symm.trans heq.symm)

theorem Covers.tableAt_eq (hk : k < 1024) : tableAt s' pid k = tableAt s₁ pid k :=
  tableAt_congr (congrFun hst.base pid) (h.root_eq ht hend hst hk)

/-- The pages of the region. -/
theorem Covers.mapped (hal : addr % PAGE_SIZE = 0) (hflag : PermissionBits flag)
    (hv : InRegion (addr, npages) v) : translates s' pid v = some (v * PAGE_SIZE, flag) := by
  obtain ⟨i, hi, rfl⟩ := (inRegion_iff hal).mp hv
  obtain ⟨c, hc, hword⟩ := h i hi
  have hlt := page_lt hend hi
  have hpa : (addr + i * PAGE_SIZE) % 2 ^ 32 = (addr / PAGE_SIZE + i) * PAGE_SIZE := by
    unfold PAGE_SIZE at *
    omega
  have hstored := hst.stored i hi
  rw [hword, hpa] at hstored
  refine translates_of_leaf hlt hflag ?_ hstored
  rw [h.tableAt_eq ht hend hst (by omega)]
  exact hc

/-- The entry of another page is another one. -/
theorem Covers.entry_eq (hal : addr % PAGE_SIZE = 0) (hv : v < 2 ^ 20)
    (hnot : ¬ InRegion (addr, npages) v) (hc : tableAt s₁ pid (v / 1024) = some c) :
    s'.mem (c + 4 * (v % 1024)) = s₁.mem (c + 4 * (v % 1024)) := by
  refine hst.rest _ fun i hi heq => hnot ?_
  obtain ⟨d, hd, hword⟩ := h i hi
  have hvi := ht.page_unique hv (page_lt hend hi) hc hd (heq.trans hword)
  exact (inRegion_iff hal).mpr ⟨i, hi, hvi⟩

/-- The other pages. -/
theorem Covers.others (hal : addr % PAGE_SIZE = 0) (hv : v < 2 ^ 20)
    (hnot : ¬ InRegion (addr, npages) v) : translates s' pid v = translates s₁ pid v :=
  translates_congr (h.tableAt_eq ht hend hst (by omega)) fun _ hc =>
    h.entry_eq ht hend hst hal hv hnot hc

/-- The words that are written. -/
theorem Covers.inside {i : ℕ} (hi : i < npages) :
    TablePage s' pid (pageOf (a + 4 * (addr / PAGE_SIZE % 1024 + i))) := by
  obtain ⟨c, hc, hword⟩ := h i hi
  have hlt := page_lt hend hi
  have hl1 : (addr / PAGE_SIZE + i) / 1024 < 1024 := by omega
  refine Or.inr ⟨_, hl1, ?_⟩
  rw [hword, pageOf_word (ht.table hl1 hc).1.aligned (Nat.mod_lt _ (by norm_num)),
    h.tableAt_eq ht hend hst hl1]
  exact hc

/-- **The page table stays in order**, so that another region may be set up. -/
theorem Covers.tables (hal : addr % PAGE_SIZE = 0) (hflag : npages = 0 ∨ PermissionBits flag) :
    Tables s' pid := by
  have hb : s'.base pid = s₁.base pid := congrFun hst.base pid
  refine ⟨?_, ?_, ?_, ?_, ?_⟩
  · rw [hb, hst.heap]
    exact ht.root
  · intro k hk
    rw [hb, h.root_eq ht hend hst hk]
    exact ht.entry hk
  · intro k c hk hc
    rw [h.tableAt_eq ht hend hst hk] at hc
    rw [hb, hst.heap]
    exact ht.table hk hc
  · intro k j c hk hj hc hc'
    rw [h.tableAt_eq ht hend hst hk] at hc
    rw [h.tableAt_eq ht hend hst hj] at hc'
    exact ht.apart hk hj hc hc'
  · intro k l2 c hk hl2 hc
    rw [h.tableAt_eq ht hend hst hk] at hc
    -- the page that the entry is for
    have hdiv : (k * 1024 + l2) / 1024 = k := by omega
    have hmod : (k * 1024 + l2) % 1024 = l2 := by omega
    have hc' : tableAt s₁ pid ((k * 1024 + l2) / 1024) = some c := by rwa [hdiv]
    by_cases hin : InRegion (addr, npages) (k * 1024 + l2)
    · obtain ⟨i, hi, -⟩ := (inRegion_iff hal).mp hin
      have hpos : PermissionBits flag := hflag.resolve_left (by omega)
      obtain ⟨d, hd, hvalid, -, -⟩ := entry_of_translates (h.mapped ht hend hst hal hpos hin)
      rw [h.tableAt_eq ht hend hst (by omega), hc'] at hd
      obtain rfl := Option.some.inj hd
      rw [hmod] at hvalid
      exact Or.inr hvalid
    · have hsame := h.entry_eq ht hend hst hal (by omega) hin hc'
      rw [hmod] at hsame
      rw [hsame]
      exact ht.leaf hk hl2 hc

end Covers

/-- **What the loop has written is the promise**, if every entry is the right one. -/
theorem Covers.contract (h : Covers s₁ pid addr npages a)
    (hp : Prepared s pid (addr / 2 ^ 22) s₁ a) (haddr : addr < 2 ^ 32)
    (hal : addr % PAGE_SIZE = 0) (hend : addr + npages * PAGE_SIZE ≤ 2 ^ 32)
    (hflag : npages = 0 ∨ PermissionBits flag)
    (hst : Stores s₁ addr flag a (addr / PAGE_SIZE % 1024) npages s') :
    Contract s pid addr npages flag s' := by
  have ht := hp.tables
  refine ⟨fun v hv => ?_, fun v hv hnot => ?_, fun w hw => ?_⟩
  · obtain ⟨i, hi, -⟩ := (inRegion_iff hal).mp hv
    exact h.mapped ht hend hst hal (hflag.resolve_left (by omega)) hv
  · rw [h.others ht hend hst hal hv hnot]
    exact hp.same v hv
  · by_cases hwritten : ∃ i < npages, w = a + 4 * (addr / PAGE_SIZE % 1024 + i)
    · obtain ⟨i, hi, rfl⟩ := hwritten
      exact h.inside ht hend hst hi
    · -- what is left is the entry of the root
      have hrest := hst.rest w fun i hi heq => hwritten ⟨i, hi, heq⟩
      have hroot : w = s.base pid + 4 * (addr / 2 ^ 22) := by
        by_contra hne
        exact hw (hrest.trans (hp.mem w hne))
      have hpage := ht.root.1
      rw [hp.base] at hpage
      left
      rw [hroot, pageOf_word hpage.aligned (by omega), hst.base, hp.base]

/-- **A region that fits is mapped**, and the page table is in order afterwards. -/
theorem Tables.setupIdentityRegion_of_fits (ht : Tables s pid) (haddr : addr < 2 ^ 32)
    (hal : addr % PAGE_SIZE = 0) (hn : npages ≤ 1024) (hend : addr + npages * PAGE_SIZE ≤ 2 ^ 32)
    (hfree : ∀ v, InRegion (addr, npages) v → translates s pid v = none)
    (hcond : ∀ a, tableFor s pid (addr / 2 ^ 22) = some a →
      npages = 0 ∨ PermissionBits flag ∧ Fits s pid addr npages a) :
    Ends (Earth.setupIdentityRegion s pid addr npages flag)
      (fun s' => Contract s pid addr npages flag s' ∧ Tables s' pid) (fun e => e = .noPage) := by
  rcases ht.setupIdentityRegion flag haddr hal hn with ⟨heq, -⟩ | ⟨s₁, a, hp, hends⟩
  · rw [heq]
    exact ends_error rfl
  · have hcond := hcond a hp.chosen
    have hflag : npages = 0 ∨ PermissionBits flag := hcond.imp_right And.left
    have hcovers : Covers s₁ pid addr npages a := by
      rcases hcond with rfl | ⟨-, hfits⟩
      · exact fun i hi => absurd hi (Nat.not_lt_zero i)
      · exact hp.covers hn hend hfits
    have hfree₁ : ∀ v, InRegion (addr, npages) v → translates s₁ pid v = none := by
      intro v hv
      rw [hp.same v, hfree v hv]
      obtain ⟨i, hi, rfl⟩ := (inRegion_iff hal).mp hv
      exact page_lt hend hi
    refine hends.mono (fun s' hst => ⟨hcovers.contract hp haddr hal hend hflag hst, ?_⟩) ?_
    · exact hcovers.tables hp.tables hend hst hal hflag
    · rintro e ⟨-, i, hi, hne⟩
      exact absurd (hcovers.empty hp.tables hal hend hfree₁ hi) hne

/-! ## One region after the other

This is what `page_table_map` does for a process that has no page table yet; here with any regions,
each in one table, and any permission bits.
-/

/-- The regions have been mapped, and nothing else. -/
structure Mapped (s : Vm al) (pid : ℤ) (flag : ℕ) (rs : List (ℕ × ℕ)) (s' : Vm al) : Prop where
  tables : Tables s' pid
  mapped : ∀ r ∈ rs, ∀ v, InRegion r v → translates s' pid v = some (v * PAGE_SIZE, flag)
  others : ∀ v < 2 ^ 20, (∀ r ∈ rs, ¬ InRegion r v) → translates s' pid v = translates s pid v

/-- The end of a region that lies in one table. -/
theorem RegionOk.end_le {r : ℕ × ℕ} (h : RegionOk r) : r.1 + r.2 * PAGE_SIZE ≤ 2 ^ 32 := by
  obtain ⟨hal, hlt, hfits⟩ := h
  unfold PAGE_SIZE
  omega

theorem RegionOk.page_lt {r : ℕ × ℕ} (h : RegionOk r) (hv : InRegion r v) : v < 2 ^ 20 := by
  have hend := h.end_le
  obtain ⟨-, hlt⟩ := hv
  unfold PAGE_SIZE at *
  omega

/-- **One more region**, that has no page in common with the others. -/
theorem Mapped.setupIdentityRegion {rs : List (ℕ × ℕ)} {r : ℕ × ℕ} (h : Mapped s pid flag rs s')
    (hflag : PermissionBits flag) (hok : ∀ q ∈ rs ++ [r], RegionOk q)
    (hapart : ∀ q ∈ rs, Apart q r) (hfree : ∀ v, InRegion r v → translates s pid v = none) :
    Ends (Earth.setupIdentityRegion s' pid r.1 r.2 flag) (Mapped s pid flag (rs ++ [r]))
      (fun e => e = .noPage) := by
  obtain ⟨addr, n⟩ := r
  have hregion : RegionOk (addr, n) := hok _ (by simp)
  have hfits := hregion.fits
  dsimp only at hfits
  have hfree' : ∀ v, InRegion (addr, n) v → translates s' pid v = none := by
    intro v hv
    rw [h.others v (hregion.page_lt hv) fun q hq => (hapart q hq).not_inRegion hv]
    exact hfree v hv
  refine (h.tables.setupIdentityRegion_of_fits hregion.lt hregion.aligned (by omega) hregion.end_le
    hfree' fun a _ => Or.inr ⟨hflag, Or.inl hfits⟩).mono ?_ fun _ he => he
  rintro s'' ⟨hcontract, htables⟩
  refine ⟨htables, fun q hq v hv => ?_, fun v hv hnot => ?_⟩
  · rcases List.mem_append.mp hq with hq | hq
    · by_cases hin : InRegion (addr, n) v
      · exact hcontract.mapped v hin
      · rw [hcontract.others v ((hok q (by simp [hq])).page_lt hv) hin]
        exact h.mapped q hq v hv
    · rw [List.mem_singleton.mp hq] at hv
      exact hcontract.mapped v hv
  · rw [hcontract.others v hv (hnot _ (by simp))]
    exact h.others v hv fun q hq => hnot q (by simp [hq])

/-- **Any number of regions.** -/
theorem Tables.setupIdentityRegions {rs : List (ℕ × ℕ)} (h : Tables s pid)
    (hflag : PermissionBits flag) (hok : ∀ r ∈ rs, RegionOk r) (hapart : rs.Pairwise Apart)
    (hfree : ∀ r ∈ rs, ∀ v, InRegion r v → translates s pid v = none) :
    Ends (rs.foldlM (fun s r => Earth.setupIdentityRegion s pid r.1 r.2 flag) s)
      (Mapped s pid flag rs) (fun e => e = .noPage) := by
  refine Ends.foldlM (P := Mapped s pid flag) rs ⟨h, by simp, fun _ _ _ => rfl⟩ ?_
  rintro before r after s' rfl hmapped
  rw [List.pairwise_append] at hapart
  refine hmapped.setupIdentityRegion hflag (fun q hq => hok q ?_) ?_ (hfree r (by simp))
  · rcases List.mem_append.mp hq with hq | hq
    · simp [hq]
    · simp [List.mem_singleton.mp hq]
  · exact fun q hq => hapart.2.2 q hq r List.mem_cons_self

/-- The low bits of a valid entry are permission bits. -/
theorem permissionBits_of_translates {pa : ℕ} (h : translates s pid v = some (pa, flag)) :
    PermissionBits flag := by
  obtain ⟨c, -, hvalid, -, hbits⟩ := entry_of_translates h
  dsimp only at hbits
  unfold PermissionBits PTE_V at *
  rw [Nat.and_one_is_mod] at *
  omega

/-- **Behind the boundary.**  The first page there is looked up in the table for the next entry of
the root.  If it is mapped, that is the table the loop has written into. -/
theorem Contract.next (h : Contract s pid addr npages flag s')
    (hp : Prepared s pid (addr / 2 ^ 22) s₁ a) (hal : addr % PAGE_SIZE = 0) (hn : npages ≤ 1024)
    (hend : addr + npages * PAGE_SIZE ≤ 2 ^ 32)
    (hfree : ∀ v, InRegion (addr, npages) v → translates s pid v = none)
    (hst : Stores s₁ addr flag a (addr / PAGE_SIZE % 1024) npages s')
    (hcross : 1024 < addr / PAGE_SIZE % 1024 + npages) :
    tableAt s pid (addr / 2 ^ 22 + 1) = some (a + PAGE_SIZE) := by
  have ht := hp.tables
  have hl1 : addr / 2 ^ 22 + 1 < 1024 := by
    unfold PAGE_SIZE at *
    omega
  have hb : s'.base pid = s₁.base pid := congrFun hst.base pid
  -- the entry of the root is not written: the one before it would be too, and is not empty
  have htable : tableAt s' pid (addr / 2 ^ 22 + 1) = tableAt s₁ pid (addr / 2 ^ 22 + 1) := by
    refine tableAt_congr hb (hst.rest _ fun i hi heq => ?_)
    cases i with
    | zero =>
      exact ht.ne_root (Nat.lt_of_succ_lt hl1) hp.table (Nat.mod_lt _ (by norm_num)) hl1 heq.symm
    | succ j =>
      have hbefore : s₁.base pid + 4 * (addr / 2 ^ 22) = a + 4 * (addr / PAGE_SIZE % 1024 + j) := by
        omega
      refine entry_ne_zero hp.table ?_
      rw [hbefore]
      exact hst.empty j (Nat.lt_of_succ_lt hi)
  -- the first page behind the boundary
  have hin : InRegion (addr, npages) ((addr / 2 ^ 22 + 1) * 1024) := by
    unfold InRegion PAGE_SIZE at *
    dsimp only
    omega
  have hdiv : (addr / 2 ^ 22 + 1) * 1024 / 1024 = addr / 2 ^ 22 + 1 :=
    Nat.mul_div_cancel _ (by norm_num)
  obtain ⟨c, hc, hvalid, -, -⟩ := entry_of_translates (h.mapped _ hin)
  rw [Nat.mul_mod_left] at hvalid
  rw [hdiv, htable] at hc
  have hempty : s₁.mem (c + 4 * 0) = 0 := by
    have hnone : translates s₁ pid ((addr / 2 ^ 22 + 1) * 1024) = none := by
      rw [hp.same _ (by omega)]
      exact hfree _ hin
    have hz := ht.leaf_eq_zero (by omega) hnone (by rwa [hdiv])
    rwa [Nat.mul_mod_left] at hz
  obtain ⟨i, hi, heq⟩ : ∃ i < npages, c + 4 * 0 = a + 4 * (addr / PAGE_SIZE % 1024 + i) := by
    by_contra hno
    have hsame := hst.rest (c + 4 * 0) fun i hi heq => hno ⟨i, hi, heq⟩
    rw [hsame, hempty] at hvalid
    exact hvalid rfl
  -- it is another table, so it is the page behind
  have hca : c ≠ a := by
    rintro rfl
    have hsucc := ht.apart hl1 (Nat.lt_of_succ_lt hl1) hc hp.table
    omega
  obtain ⟨x, rfl⟩ := (ht.table hl1 hc).1.aligned
  obtain ⟨y, rfl⟩ := (ht.table (Nat.lt_of_succ_lt hl1) hp.table).1.aligned
  have hbehind : PAGE_SIZE * x = PAGE_SIZE * y + PAGE_SIZE := by
    unfold PAGE_SIZE at *
    omega
  rw [← hbehind, ← hc]
  exact (hp.rest _ hl1 (by omega)).symm

/-- **What the function keeps of the promise is the condition.** -/
theorem Contract.fits (h : Contract s pid addr npages flag s')
    (hp : Prepared s pid (addr / 2 ^ 22) s₁ a) (hal : addr % PAGE_SIZE = 0) (hn : npages ≤ 1024)
    (hend : addr + npages * PAGE_SIZE ≤ 2 ^ 32)
    (hfree : ∀ v, InRegion (addr, npages) v → translates s pid v = none)
    (hst : Stores s₁ addr flag a (addr / PAGE_SIZE % 1024) npages s') (hpos : 0 < npages) :
    PermissionBits flag ∧ Fits s pid addr npages a := by
  have hfirst := h.mapped _ ((inRegion_iff hal).mpr ⟨0, hpos, rfl⟩)
  refine ⟨permissionBits_of_translates hfirst, ?_⟩
  rcases Nat.lt_or_ge 1024 (addr / PAGE_SIZE % 1024 + npages) with hcross | hin
  · exact Or.inr (h.next hp hal hn hend hfree hst hcross)
  · exact Or.inl hin

/-- **`setup_identity_region` keeps its promise exactly for a region that fits.**  The process has a
page table that is in order, and the pages of the region are not mapped.  A region that crosses a
boundary of four megabytes fits only if the table for the next four megabytes is there already and
lies right behind the one that is used; otherwise a page beyond the boundary is not mapped, or an
`ASSERT` fails. -/
theorem setupIdentityRegion_meets_iff (ht : Tables s pid) (haddr : addr < 2 ^ 32)
    (hal : addr % PAGE_SIZE = 0) (hn : npages ≤ 1024) (hend : addr + npages * PAGE_SIZE ≤ 2 ^ 32)
    (hfree : ∀ v, InRegion (addr, npages) v → translates s pid v = none) :
    Meets s pid addr npages flag ↔
      ∀ a, tableFor s pid (addr / 2 ^ 22) = some a →
        npages = 0 ∨ PermissionBits flag ∧ Fits s pid addr npages a := by
  constructor
  · intro hmeets b hb
    unfold Meets at hmeets
    rcases ht.setupIdentityRegion flag haddr hal hn with ⟨-, hnone⟩ | ⟨s₁, a, hp, hends⟩
    · rw [hnone] at hb
      cases hb
    · rw [hp.chosen] at hb
      obtain rfl := Option.some.inj hb
      rcases Nat.eq_zero_or_pos npages with hz | hpos
      · exact Or.inl hz
      · right
        cases hr : Earth.setupIdentityRegion s pid addr npages flag with
        | error e =>
          rw [hr] at hmeets hends
          have hfatal : e = .fatal := hends.1
          rw [show e = .noPage from hmeets] at hfatal
          cases hfatal
        | ok s' =>
          rw [hr] at hmeets hends
          exact Contract.fits hmeets hp hal hn hend hfree hends hpos
  · intro hcond
    exact (ht.setupIdentityRegion_of_fits haddr hal hn hend hfree hcond).mono
      (fun s' h => h.1) fun e he => he

/-- Process 6 after its first page has been mapped: the three pages at the first boundary of four
megabytes are not, and of a region that crosses it only the first page gets mapped. -/
theorem mapsCode_regions :
    ∃ os w, Run vmStep Handed (World.init (fun _ => 0) someFree) mapsCode os w ∧
      w.vm.base 6 ≠ 0 ∧ (∀ v ∈ [1023, 1024, 1025], translates w.vm 6 v = none) ∧
      ∃ s', setupIdentityRegion w.vm 6 0x3FF000 2 LEAF_FLAG = .ok s' ∧
        translates s' 6 1023 = some (0x3FF000, LEAF_FLAG) ∧ translates s' 6 1024 = none := by
  have hbefore : (exec (guarded vmStep Handed) (World.init (fun _ => 0) someFree) mapsCode).map
      (fun r => decide (r.1.vm.base 6 ≠ 0 ∧
        ∀ v ∈ [1023, 1024, 1025], translates r.1.vm 6 v = none)) = some true := by decide +kernel
  have hafter : (exec (guarded vmStep Handed) (World.init (fun _ => 0) someFree) mapsCode).map
      (fun r => (setupIdentityRegion r.1.vm 6 0x3FF000 2 LEAF_FLAG).map
        fun s' => (translates s' 6 1023, translates s' 6 1024)) =
      some (.ok (some (0x3FF000, LEAF_FLAG), none)) := by decide +kernel
  obtain ⟨⟨w, os⟩, hexec, hpages⟩ := Option.map_eq_some_iff.mp hbefore
  obtain ⟨hbase, hnone⟩ := of_decide_eq_true hpages
  rw [hexec, Option.map_some] at hafter
  refine ⟨os, w, run_of_exec_guarded hexec, hbase, hnone, ?_⟩
  dsimp only at hafter
  cases hs : setupIdentityRegion w.vm 6 0x3FF000 2 LEAF_FLAG with
  | error e =>
    rw [hs] at hafter
    cases hafter
  | ok s' =>
    rw [hs] at hafter
    obtain ⟨hin, hout⟩ := Prod.mk.inj (Except.ok.inj (Option.some.inj hafter))
    exact ⟨s', rfl, hin, hout⟩

/-- A region that starts at the boundary is mapped. -/
theorem setupIdentityRegion_meets_iff_twoPages :
    ∃ os w, Run vmStep Handed (World.init (fun _ => 0) someFree) mapsCode os w ∧
      Meets w.vm 6 0x400000 2 LEAF_FLAG := by
  obtain ⟨os, w, hrun, hb, hnone, -⟩ := mapsCode_regions
  have hfree : ∀ v, InRegion (0x400000, 2) v → translates w.vm 6 v = none := by
    intro v hv
    refine hnone v ?_
    unfold InRegion PAGE_SIZE at hv
    dsimp only at hv
    obtain rfl | rfl : v = 1024 ∨ v = 1025 := by omega
    · simp
    · simp
  refine ⟨os, w, hrun, ?_⟩
  refine (setupIdentityRegion_meets_iff (tables_of_run hrun hb) (by norm_num) (by decide)
    (by norm_num) (by decide) hfree).mpr fun a _ => Or.inr ⟨by decide, Or.inl (by decide)⟩

/-- A region of two pages on the two sides of a boundary: the second page is not mapped.  Its entry
has been written into the page behind the new table. -/
theorem setupIdentityRegion_crosses :
    ∃ os w, Run vmStep Handed (World.init (fun _ => 0) someFree) mapsCode os w ∧
      Tables w.vm 6 ∧ (∀ v, InRegion (0x3FF000, 2) v → translates w.vm 6 v = none) ∧
      ∃ s', setupIdentityRegion w.vm 6 0x3FF000 2 LEAF_FLAG = .ok s' ∧
        InRegion (0x3FF000, 2) 1024 ∧ translates s' 6 1024 = none ∧
        ¬ Contract w.vm 6 0x3FF000 2 LEAF_FLAG s' := by
  obtain ⟨os, w, hrun, hb, hnone, s', hs, -, hout⟩ := mapsCode_regions
  have hin : InRegion (0x3FF000, 2) 1024 := by decide
  refine ⟨os, w, hrun, tables_of_run hrun hb, ?_, s', hs, hin, hout, fun hc => ?_⟩
  · intro v hv
    refine hnone v ?_
    unfold InRegion PAGE_SIZE at hv
    dsimp only at hv
    obtain rfl | rfl : v = 1023 ∨ v = 1024 := by omega
    · simp
    · simp
  · have hmapped := hc.mapped 1024 hin
    rw [hout] at hmapped
    cases hmapped

end Earth
end EgosNet
