import EgosNet.Earth.Custody

/-!
# A page table that is in order

The view of `Ownership` says of every page what it is used for, and of every process what it sees.
Here is less, read off memory alone: the second-level table that an entry of a root points to
(`tableAt`), and the physical page and the permission bits that a virtual page is translated to
(`translates`).  That is what `page_table_translate` finds (`pageTableTranslate_eq_translates`).

`Tables` says that the page table of one process is in order, whatever the pages it maps are and
with whatever permission bits.  It is, in every state in which the pages are owned (`Owns.tables`),
so in every state that requests lead to (`tables_of_run`); and it stays so when a new table is put
into an empty entry of the root (`Linked.tables`).
-/

namespace EgosNet
namespace Earth

open Foundation

variable {al : Allocator} {s s' : Vm al} {V : View} {pid : ℤ} {a c l1 l2 k v : ℕ}

/-! ## Looking up a page -/

/-- The second-level table that an entry of the root points to. -/
def tableAt (s : Vm al) (pid : ℤ) (l1Idx : ℕ) : Option ℕ :=
  if s.mem (s.base pid + 4 * l1Idx) &&& FLAG_NEXT_LEVEL = 0 then none
  else some (pteAddr (s.mem (s.base pid + 4 * l1Idx)))

/-- The physical page of a virtual page, with the permission bits, which are the ten low bits of its
entry. -/
def translates (s : Vm al) (pid : ℤ) (v : ℕ) : Option (ℕ × ℕ) :=
  (tableAt s pid (v / 1024)).bind fun l2Pa =>
    let l2Pte := s.mem (l2Pa + 4 * (v % 1024))
    if l2Pte &&& PTE_V = 0 then none else some (pteAddr l2Pte, l2Pte % 1024)

theorem tableAt_eq_some :
    tableAt s pid l1 = some a ↔ s.mem (s.base pid + 4 * l1) &&& FLAG_NEXT_LEVEL ≠ 0 ∧
      pteAddr (s.mem (s.base pid + 4 * l1)) = a := by
  unfold tableAt
  split_ifs with h
  · simp [h]
  · simp [h]

/-- An entry that points to a table is not empty. -/
theorem entry_ne_zero (h : tableAt s pid l1 = some a) : s.mem (s.base pid + 4 * l1) ≠ 0 := by
  intro hz
  refine (tableAt_eq_some.mp h).1 ?_
  rw [hz]
  rfl

/-- Where an entry for a second-level table was stored, that table is found. -/
theorem tableAt_of_nextLevel (h : s.mem (s.base pid + 4 * l1) = nextLevel a) (ha : IsFrame a) :
    tableAt s pid l1 = some a := by
  refine tableAt_eq_some.mpr ?_
  rw [h]
  exact ⟨nextLevel_valid ha, pteAddr_nextLevel ha⟩

/-- The same entry, the same table. -/
theorem tableAt_congr (hb : s'.base pid = s.base pid)
    (hm : s'.mem (s.base pid + 4 * l1) = s.mem (s.base pid + 4 * l1)) :
    tableAt s' pid l1 = tableAt s pid l1 := by
  unfold tableAt
  rw [hb, hm]

/-- The same table and the same entry of it, the same page. -/
theorem translates_congr (ht : tableAt s' pid (v / 1024) = tableAt s pid (v / 1024))
    (hm : ∀ c, tableAt s pid (v / 1024) = some c →
      s'.mem (c + 4 * (v % 1024)) = s.mem (c + 4 * (v % 1024))) :
    translates s' pid v = translates s pid v := by
  unfold translates
  rw [ht]
  cases hc : tableAt s pid (v / 1024) with
  | none => rfl
  | some c => simp only [Option.bind_some, hm c hc]

/-- A page whose entry is empty is not translated. -/
theorem translates_of_zero (ht : tableAt s pid (v / 1024) = some c)
    (hz : s.mem (c + 4 * (v % 1024)) = 0) : translates s pid v = none := by
  unfold translates
  rw [ht, Option.bind_some, hz]
  rfl

/-- A page that is translated has a table and a valid entry. -/
theorem entry_of_translates {r : ℕ × ℕ} (h : translates s pid v = some r) :
    ∃ c, tableAt s pid (v / 1024) = some c ∧ s.mem (c + 4 * (v % 1024)) &&& PTE_V ≠ 0 ∧
      pteAddr (s.mem (c + 4 * (v % 1024))) = r.1 ∧ s.mem (c + 4 * (v % 1024)) % 1024 = r.2 := by
  obtain ⟨c, hc, hr⟩ := Option.bind_eq_some_iff.mp h
  dsimp only at hr
  split_ifs at hr with hvalid
  obtain rfl := Option.some.inj hr
  exact ⟨c, hc, hvalid, rfl, rfl⟩

/-- `walk`, when it may not allocate. -/
theorem walk_eq_tableAt (hb : s.base pid ≠ 0) (va : ℕ) :
    walk s (s.base pid) va false =
      match tableAt s pid (va / 2 ^ 22) with
      | some a => .ok (s, a + 4 * (va / 4096 % 1024))
      | none => .error .fatal := by
  unfold walk allocMissing tableAt assert
  dsimp only
  rw [ensure_of hb, l1_index, l2_index]
  generalize s.base pid + 4 * (va / 2 ^ 22) = word
  by_cases hz : s.mem word = 0
  · rw [if_pos hz, hz]
    rfl
  · rw [if_neg hz]
    by_cases hvalid : s.mem word &&& FLAG_NEXT_LEVEL = 0
    · simp [hvalid, ensure, bind, Except.bind, pure, Except.pure]
    · simp [hvalid, ensure, bind, Except.bind, pure, Except.pure]

/-- **`page_table_translate` finds what `translates` says**, in every state, for a process that has
a page table. -/
theorem pageTableTranslate_eq_translates (hpid : PidOk pid) (hb : s.base pid ≠ 0) (va : ℕ) :
    pageTableTranslate s pid va =
      match translates s pid (va / 4096) with
      | some r => .ok (r.1 ||| (va &&& 0xFFF))
      | none => .error .fatal := by
  have hl1 : va / 4096 / 1024 = va / 2 ^ 22 := by omega
  unfold pageTableTranslate translates assert
  dsimp only
  rw [ensure_of hpid, ensure_of hb, walk_eq_tableAt hb, hl1]
  cases tableAt s pid (va / 2 ^ 22) with
  | none => rfl
  | some c =>
    by_cases hleaf : s.mem (c + 4 * (va / 4096 % 1024)) &&& PTE_V = 0
    · simp [hleaf, ensure, bind, Except.bind]
    · simp [hleaf, ensure, bind, Except.bind, pure, Except.pure]

/-! ## A page table that is in order -/

/-- The page table of the process is in order: its tables are pages in use, each for one entry of
the root, and an entry of a table is empty or valid. -/
structure Tables (s : Vm al) (pid : ℤ) : Prop where
  root : IsPage (s.base pid) ∧ s.base pid ∈ al.inUse s.heap
  entry : ∀ {l1}, l1 < 1024 →
    s.mem (s.base pid + 4 * l1) = 0 ∨ s.mem (s.base pid + 4 * l1) &&& FLAG_NEXT_LEVEL ≠ 0
  table : ∀ {l1 a}, l1 < 1024 → tableAt s pid l1 = some a →
    IsPage a ∧ a ∈ al.inUse s.heap ∧ a ≠ s.base pid
  apart : ∀ {l1 k a}, l1 < 1024 → k < 1024 → tableAt s pid l1 = some a →
    tableAt s pid k = some a → l1 = k
  leaf : ∀ {l1 l2 a}, l1 < 1024 → l2 < 1024 → tableAt s pid l1 = some a →
    s.mem (a + 4 * l2) = 0 ∨ s.mem (a + 4 * l2) &&& PTE_V ≠ 0

/-- **It is, where the pages are owned.** -/
theorem Owns.tables (h : Owns s V) (hb : s.base pid ≠ 0) : Tables s pid := by
  -- the table that an entry points to is the one that has the role
  have hrole {l1 a : ℕ} (hl1 : l1 < 1024) (ha : tableAt s pid l1 = some a) :
      V.role a = some (.table pid l1) := by
    obtain ⟨b, hr⟩ := (h.entry hb hl1).resolve_left (entry_ne_zero ha)
    have hsome := tableAt_of_nextLevel (h.table hr).2.2 (h.isPage hr).isFrame
    obtain rfl := Option.some.inj (ha.symm.trans hsome)
    exact hr
  refine ⟨⟨h.base_isPage hb, h.inUse (h.base hb).2⟩, ?_, ?_, ?_, ?_⟩
  · intro l1 hl1
    rcases h.entry hb hl1 with hz | ⟨b, hr⟩
    · exact Or.inl hz
    · rw [(h.table hr).2.2]
      exact Or.inr (nextLevel_valid (h.isPage hr).isFrame)
  · intro l1 a hl1 ha
    have hr := hrole hl1 ha
    refine ⟨h.isPage hr, h.inUse hr, ?_⟩
    rintro rfl
    rw [(h.base hb).2] at hr
    cases hr
  · intro l1 k a hl1 hk ha ha'
    have heq := (hrole hl1 ha).symm.trans (hrole hk ha')
    exact (Role.table.inj (Option.some.inj heq)).2
  · intro l1 l2 a hl1 hl2 ha
    rw [h.leaf (hrole hl1 ha) hl2]
    cases hv : V.lookup pid (l1 * 1024 + l2) with
    | none => exact Or.inl rfl
    | some pa => exact Or.inr (leaf_valid (h.target_isFrame hv))

/-- Every process that has a page table has one that is in order, whatever has been requested. -/
theorem tables_of_run {mem : Words} {heap : al.State} {is : List Op} {os : List Done}
    {w : World al} (h : Run vmStep Handed (World.init mem heap) is os w)
    (hb : w.vm.base pid ≠ 0) : Tables w.vm pid := by
  obtain ⟨V, hV, -⟩ := recorded_of_run h
  exact hV.owns.tables hb

section Tables

/-- An entry of a table is not one of the root. -/
theorem Tables.ne_root (h : Tables s pid) (hl1 : l1 < 1024) (ha : tableAt s pid l1 = some a)
    (hl2 : l2 < 1024) (hk : k < 1024) : a + 4 * l2 ≠ s.base pid + 4 * k := by
  intro heq
  obtain ⟨hpage, -, hne⟩ := h.table hl1 ha
  exact hne (word_inj hpage.aligned h.root.1.aligned hl2 hk heq).1

/-- **An entry is for one page.** -/
theorem Tables.page_unique (h : Tables s pid) {x y : ℕ} (hx : x < 2 ^ 20) (hy : y < 2 ^ 20)
    (ha : tableAt s pid (x / 1024) = some a) (hc : tableAt s pid (y / 1024) = some c)
    (heq : a + 4 * (x % 1024) = c + 4 * (y % 1024)) : x = y := by
  have hx1 : x / 1024 < 1024 := by omega
  have hy1 : y / 1024 < 1024 := by omega
  have ha' := (h.table hx1 ha).1.aligned
  have hc' := (h.table hy1 hc).1.aligned
  have hmod (z : ℕ) : z % 1024 < 1024 := Nat.mod_lt z (by norm_num)
  obtain ⟨rfl, hrem⟩ := word_inj ha' hc' (hmod x) (hmod y) heq
  have hdiv := h.apart hx1 hy1 ha hc
  omega

/-- The entry of a page that is not translated is empty. -/
theorem Tables.leaf_eq_zero (h : Tables s pid) (hv : v < 2 ^ 20)
    (hnone : translates s pid v = none) (hc : tableAt s pid (v / 1024) = some c) :
    s.mem (c + 4 * (v % 1024)) = 0 := by
  refine (h.leaf (by omega) (Nat.mod_lt _ (by norm_num)) hc).resolve_right fun hvalid => ?_
  unfold translates at hnone
  rw [hc, Option.bind_some, if_neg hvalid] at hnone
  cases hnone

end Tables

/-! ## A new table -/

/-- A page that was not in use has been cleared, and stored in an entry of the root: what this
changes in the page table. -/
structure Linked (s : Vm al) (pid : ℤ) (l1 a : ℕ) (t : Vm al) : Prop where
  base : t.base pid = s.base pid
  isPage : IsPage a
  unused : a ∉ al.inUse s.heap
  inUse : al.inUse t.heap = insert a (al.inUse s.heap)
  new : t.mem (s.base pid + 4 * l1) = nextLevel a
  entry : ∀ {k}, k < 1024 → k ≠ l1 → t.mem (s.base pid + 4 * k) = s.mem (s.base pid + 4 * k)
  leaf : ∀ {k l2 c}, k < 1024 → l2 < 1024 → tableAt s pid k = some c →
    t.mem (c + 4 * l2) = s.mem (c + 4 * l2)
  clear : ∀ {l2}, l2 < 1024 → t.mem (a + 4 * l2) = 0

/-- It is what `pmalloc` and the store of the entry do. -/
theorem Tables.linked {h' : al.State} {m' : Words} (h : Tables s pid) (hl1 : l1 < 1024)
    (hp : al.pmalloc s.heap s.mem true = some (h', m', a)) (calls : List AllocCall) :
    Linked s pid l1 a
      ((Vm.mk m' s.base h' calls).write (s.base pid + 4 * l1) (nextLevel a)) := by
  have hpage := al.pmalloc_page hp
  have hfresh := al.pmalloc_fresh hp
  have hframe := al.pmalloc_frame hp
  obtain ⟨hroot, hrootIn⟩ := h.root
  have hne : a ≠ s.base pid := fun heq => hfresh (heq ▸ hrootIn)
  have hother {w : ℕ} (hw : w ≠ s.base pid + 4 * l1) :
      Function.update m' (s.base pid + 4 * l1) (nextLevel a) w = m' w :=
    Function.update_of_ne hw _ _
  refine ⟨rfl, hpage, hfresh, al.pmalloc_inUse hp, Function.update_self _ _ _, ?_, ?_, ?_⟩
  · intro k hk hkl
    refine (hother (by omega)).trans (hframe _ ?_)
    rwa [pageOf_word hroot.aligned hk]
  · intro k l2 c hk hl2 hc
    obtain ⟨hcpage, hcin, -⟩ := h.table hk hc
    refine (hother (h.ne_root hk hc hl2 hl1)).trans (hframe _ ?_)
    rwa [pageOf_word hcpage.aligned hl2]
  · intro l2 hl2
    refine (hother fun heq => ?_).trans (al.pmalloc_zero hp l2 hl2)
    exact hne (word_inj hpage.aligned hroot.aligned hl2 hl1 heq).1

section Linked

variable {t : Vm al}

theorem Linked.tableAt_self (h : Linked s pid l1 a t) : tableAt t pid l1 = some a := by
  refine tableAt_of_nextLevel ?_ h.isPage.isFrame
  rw [h.base]
  exact h.new

theorem Linked.tableAt_of_ne (h : Linked s pid l1 a t) (hk : k < 1024) (hkl : k ≠ l1) :
    tableAt t pid k = tableAt s pid k :=
  tableAt_congr h.base (h.entry hk hkl)

/-- **The page table is in order with the new table.** -/
theorem Linked.tables (hlink : Linked s pid l1 a t) (h : Tables s pid) : Tables t pid := by
  have hin {b : ℕ} (hb : b ∈ al.inUse s.heap) : b ∈ al.inUse t.heap := by
    rw [hlink.inUse]
    exact Set.mem_insert_of_mem _ hb
  -- a table that was there is not the new one
  have hold {k c : ℕ} (hk : k < 1024) (hkl : k ≠ l1) (hc : tableAt t pid k = some c) : c ≠ a := by
    rintro rfl
    rw [hlink.tableAt_of_ne hk hkl] at hc
    exact hlink.unused (h.table hk hc).2.1
  refine ⟨?_, ?_, ?_, ?_, ?_⟩
  · rw [hlink.base]
    exact ⟨h.root.1, hin h.root.2⟩
  · intro k hk
    rw [hlink.base]
    by_cases hkl : k = l1
    · rw [hkl, hlink.new]
      exact Or.inr (nextLevel_valid hlink.isPage.isFrame)
    · rw [hlink.entry hk hkl]
      exact h.entry hk
  · intro k c hk hc
    rw [hlink.base]
    by_cases hkl : k = l1
    · rw [hkl, hlink.tableAt_self] at hc
      obtain rfl := Option.some.inj hc
      refine ⟨hlink.isPage, ?_, fun heq => hlink.unused (heq ▸ h.root.2)⟩
      rw [hlink.inUse]
      exact Set.mem_insert _ _
    · rw [hlink.tableAt_of_ne hk hkl] at hc
      obtain ⟨hcpage, hcin, hcne⟩ := h.table hk hc
      exact ⟨hcpage, hin hcin, hcne⟩
  · intro k j c hk hj hc hc'
    by_cases hkl : k = l1
    · by_cases hjl : j = l1
      · rw [hkl, hjl]
      · rw [hkl, hlink.tableAt_self] at hc
        exact absurd (Option.some.inj hc).symm (hold hj hjl hc')
    · by_cases hjl : j = l1
      · rw [hjl, hlink.tableAt_self] at hc'
        exact absurd (Option.some.inj hc').symm (hold hk hkl hc)
      · rw [hlink.tableAt_of_ne hk hkl] at hc
        rw [hlink.tableAt_of_ne hj hjl] at hc'
        exact h.apart hk hj hc hc'
  · intro k l2 c hk hl2 hc
    by_cases hkl : k = l1
    · rw [hkl, hlink.tableAt_self] at hc
      obtain rfl := Option.some.inj hc
      exact Or.inl (hlink.clear hl2)
    · rw [hlink.tableAt_of_ne hk hkl] at hc
      rw [hlink.leaf hk hl2 hc]
      exact h.leaf hk hl2 hc

/-- **No page is translated in another way**: those of the new table were not mapped before, and are
not now. -/
theorem Linked.translates_eq (h : Linked s pid l1 a t) (hz : s.mem (s.base pid + 4 * l1) = 0)
    (hv : v < 2 ^ 20) : translates t pid v = translates s pid v := by
  have hmod : v % 1024 < 1024 := Nat.mod_lt _ (by norm_num)
  have hdiv : v / 1024 < 1024 := by omega
  by_cases hkl : v / 1024 = l1
  · have hnone : tableAt s pid (v / 1024) = none := by
      rw [hkl]
      unfold tableAt
      rw [hz]
      rfl
    rw [translates_of_zero (hkl ▸ h.tableAt_self) (h.clear hmod)]
    unfold translates
    rw [hnone]
    rfl
  · exact translates_congr (h.tableAt_of_ne hdiv hkl) fun c hc => h.leaf hdiv hmod hc

end Linked

end Earth
end EgosNet
