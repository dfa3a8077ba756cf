import EgosNet.Earth.Ownership

/-!
# Mapping and translating

What the functions of `mem_vm.c` do, in terms of the view.  `page_table_map` allocates a root if
there is none and maps the regions that a process sees at their own addresses, allocates a
second-level table if there is none, and writes an entry.  Along the way the pages it gets from the
allocator become tables of the process, and nothing else changes its role (`Grows`).

* `Owns.walk`, `Owns.setupIdentityRegion`, `Owns.newPageTable`: the steps.  None of them runs into
  an `ASSERT`; all that can stop them is that there is no page left.
* `Owns.pageTableMap`: the address space is extended by one page.  The function stops at an `ASSERT`
  exactly for a process number out of range or a page that is mapped already.
* `Owns.pageTableTranslate`: translation is the address space.
-/

namespace EgosNet
namespace Earth

open Foundation

variable {al : Allocator} {s s' s'' : Vm al} {V V' V'' : View} {pid : ℤ}

/-! ## Growing -/

/-- From one state to the other the pages `l` have been allocated for tables of the process, and no
other page has changed its role. -/
structure Grows (pid : ℤ) (s : Vm al) (V : View) (s' : Vm al) (V' : View) (l : List ℕ) : Prop where
  calls : s'.calls = s.calls ++ l.map .pmalloc
  inUse : ∀ a, a ∈ al.inUse s'.heap ↔ a ∈ al.inUse s.heap ∨ a ∈ l
  fresh : ∀ a ∈ l, a ∉ al.inUse s.heap ∧ V.role a = none
  new : ∀ a ∈ l, V'.role a = some (.root pid) ∨ ∃ l1, V'.role a = some (.table pid l1)
  old : ∀ a, a ∉ l → V'.role a = V.role a
  space : ∀ q, q ≠ pid → V'.space q = V.space q

theorem Grows.refl (pid : ℤ) (s : Vm al) (V : View) : Grows pid s V s V [] :=
  ⟨by simp, by simp, by simp, by simp, fun _ _ => rfl, fun _ _ => rfl⟩

theorem Grows.trans {l l' : List ℕ} (h : Grows pid s V s' V' l) (h' : Grows pid s' V' s'' V'' l') :
    Grows pid s V s'' V'' (l ++ l') := by
  have hnot : ∀ a ∈ l, a ∉ l' := fun a ha ha' => (h'.fresh a ha').1 ((h.inUse a).mpr (Or.inr ha))
  refine ⟨?_, fun a => ?_, fun a ha => ?_, fun a ha => ?_, fun a ha => ?_, fun q hq => ?_⟩
  · rw [h'.calls, h.calls, List.map_append, List.append_assoc]
  · rw [h'.inUse, h.inUse, List.mem_append, or_assoc]
  · rcases List.mem_append.mp ha with ha | ha
    · exact h.fresh a ha
    · have hout : a ∉ al.inUse s'.heap := (h'.fresh a ha).1
      rw [h.inUse, not_or] at hout
      refine ⟨hout.1, ?_⟩
      rw [← h.old a hout.2]
      exact (h'.fresh a ha).2
  · rcases List.mem_append.mp ha with ha | ha
    · rw [h'.old a (hnot a ha)]
      exact h.new a ha
    · exact h'.new a ha
  · rw [List.mem_append, not_or] at ha
    rw [h'.old a ha.2, h.old a ha.1]
  · rw [h'.space q hq, h.space q hq]

/-- A page becomes a table of the process. -/
theorem Fresh.grows {a : ℕ} {r : Role} (hf : Fresh s V s' a)
    (hr : r = .root pid ∨ ∃ l1, r = .table pid l1) (hcalls : s''.calls = s'.calls)
    (hheap : s''.heap = s'.heap) (hrole : V'.role = (V.setRole a r).role)
    (hspace : ∀ q, q ≠ pid → V'.space q = V.space q) : Grows pid s V s'' V' [a] := by
  refine ⟨by rw [hcalls, hf.calls]; rfl, fun b => ?_, fun b hb => ?_, fun b hb => ?_,
    fun b hb => ?_, hspace⟩
  · rw [hheap, hf.inUse, Set.mem_insert_iff, List.mem_singleton, or_comm]
  · rw [List.mem_singleton.mp hb]
    exact ⟨hf.unused, hf.role⟩
  · rw [List.mem_singleton.mp hb, hrole, View.setRole_self]
    rcases hr with rfl | ⟨l1, rfl⟩
    · exact Or.inl rfl
    · exact Or.inr ⟨l1, rfl⟩
  · rw [hrole, View.setRole_of_ne (by simpa using hb)]

/-! ## Second-level tables -/

/-- The table for an entry has been found or made: the address space is as before. -/
def HasTable (pid : ℤ) (l1 : ℕ) (s : Vm al) (V : View) (s' : Vm al) (a : ℕ) : Prop :=
  ∃ V' l, Grows pid s V s' V' l ∧ Owns s' V' ∧ V'.space = V.space ∧ s'.base = s.base ∧
    V'.role a = some (.table pid l1)

section Tables

variable {l1 : ℕ}

/-- There is a table already. -/
theorem Owns.hasTable (h : Owns s V) {a : ℕ} (ha : V.role a = some (.table pid l1)) :
    HasTable pid l1 s V s a :=
  ⟨V, [], Grows.refl pid s V, h, rfl, rfl, ha⟩

/-- A table is made. -/
theorem Owns.allocTable (h : Owns s V) (hb : s.base pid ≠ 0) (hl1 : l1 < 1024)
    (hmem : s.mem (s.base pid + 4 * l1) = 0) :
    Ends (s.pmalloc true)
      (fun r => HasTable pid l1 s V (r.1.write (s.base pid + 4 * l1) (nextLevel r.2)) r.2)
      (fun e => e = .noPage) := by
  refine (h.pmalloc true).mono ?_ fun _ he => he
  rintro ⟨s', a⟩ ⟨hf, hzero⟩
  have hin : a ∈ al.inUse s'.heap := by
    rw [hf.inUse]
    exact Set.mem_insert _ _
  have hb' : s'.base pid ≠ 0 := by rwa [hf.base]
  have hroot : s'.mem (s.base pid + 4 * l1) = 0 := by
    -- the root is in use, so it is not the new page
    rcases hf.owns.entry hb' hl1 with hz | ⟨b, hr⟩
    · rwa [hf.base] at hz
    · have hold := (h.table hr).2.2
      rw [hmem] at hold
      exact absurd hold.symm (nextLevel_ne_zero (h.isPage hr).isFrame)
  have howns := hf.owns.newTable hb' hl1 (by rwa [hf.base]) hf.role
    hf.isPage hin (hzero rfl)
  rw [hf.base] at howns
  exact ⟨_, [a], hf.grows (Or.inr ⟨l1, rfl⟩) rfl rfl rfl fun _ _ => rfl, howns, rfl, hf.base,
    View.setRole_self⟩

/-- **The first half of `setup_identity_region`.** -/
theorem Owns.secondLevel (h : Owns s V) (hb : s.base pid ≠ 0) (hl1 : l1 < 1024) :
    Ends (Earth.secondLevel s (s.base pid + 4 * l1)) (fun r => HasTable pid l1 s V r.1 r.2)
      (fun e => e = .noPage) := by
  unfold Earth.secondLevel
  split_ifs with hmem
  · exact (h.allocTable hb hl1 hmem).bind fun r hr => ends_pure hr
  · obtain ⟨a, ha⟩ := (h.entry hb hl1).resolve_left hmem
    obtain ⟨-, -, hentry⟩ := h.table ha
    have hframe := (h.isPage ha).isFrame
    rw [hentry]
    refine ends_ensure (fun hinv => absurd (nextLevel_valid hframe) hinv) fun _ => ends_pure ?_
    rw [pteAddr_nextLevel hframe]
    exact h.hasTable ha

theorem Owns.allocMissing (h : Owns s V) (hb : s.base pid ≠ 0) (hl1 : l1 < 1024) :
    Ends (Earth.allocMissing s (s.base pid + 4 * l1) true) (fun s' => ∃ a, HasTable pid l1 s V s' a)
      (fun e => e = .noPage) := by
  unfold Earth.allocMissing
  by_cases hmem : s.mem (s.base pid + 4 * l1) = 0
  · rw [if_pos hmem, if_pos rfl]
    exact (h.allocTable hb hl1 hmem).bind fun r hr => ends_pure ⟨r.2, hr⟩
  · rw [if_neg hmem]
    obtain ⟨a, ha⟩ := (h.entry hb hl1).resolve_left hmem
    exact ends_pure ⟨a, h.hasTable ha⟩

/-- The indices of a virtual address. -/
theorem l1_index (va : ℕ) : va >>> 22 = va / 2 ^ 22 := Nat.shiftRight_eq_div_pow va 22

theorem l2_index (va : ℕ) : (va >>> 12) &&& 0x3FF = va / 4096 % 1024 := by
  rw [Nat.shiftRight_eq_div_pow, show (0x3FF : ℕ) = 2 ^ 10 - 1 by norm_num, low_bits]
  norm_num

/-- **`walk`**, when it may allocate. -/
theorem Owns.walk {va : ℕ} (h : Owns s V) (hb : s.base pid ≠ 0) (hva : va < 2 ^ 32) :
    Ends (Earth.walk s (s.base pid) va true)
      (fun r => ∃ a, HasTable pid (va / 2 ^ 22) s V r.1 a ∧ r.2 = a + 4 * (va / 4096 % 1024))
      (fun e => e = .noPage) := by
  unfold Earth.walk
  rw [l1_index, l2_index]
  refine ends_ensure (fun hz => absurd hb hz) fun _ => ?_
  refine (h.allocMissing hb (by omega)).bind ?_
  rintro s' ⟨a, htable⟩
  obtain ⟨V', l, -, howns, -, hbase, ha⟩ := id htable
  obtain ⟨-, -, hentry⟩ := howns.table ha
  have hframe := (howns.isPage ha).isFrame
  rw [hbase] at hentry
  rw [hentry]
  refine ends_ensure (fun hinv => absurd (nextLevel_valid hframe) hinv) fun _ => ends_pure ?_
  rw [pteAddr_nextLevel hframe]
  exact ⟨a, htable, rfl⟩

end Tables

/-! ## Regions that are mapped to themselves -/

/-- The address space with a region mapped to itself. -/
def fill (M : Space) (r : ℕ × ℕ) : Space :=
  fun v => if InRegion r v then some (v * PAGE_SIZE) else M v

/-- A region that lies in one second-level table. -/
structure RegionOk (r : ℕ × ℕ) : Prop where
  aligned : r.1 % 4096 = 0
  lt : r.1 < 2 ^ 32
  fits : r.1 / 4096 % 1024 + r.2 ≤ 1024

theorem fill_zero (M : Space) (addr : ℕ) : fill M (addr, 0) = M := by
  funext v
  have hnot : ¬ InRegion (addr, 0) v := by
    rintro ⟨hle, hlt⟩
    simp only [Nat.zero_mul, Nat.add_zero] at hlt
    exact absurd hle (not_le.mpr hlt)
  rw [fill, if_neg hnot]

/-- One more page. -/
theorem fill_succ (M : Space) {addr : ℕ} (hal : addr % 4096 = 0) (k : ℕ) :
    Function.update (fill M (addr, k)) (addr / 4096 + k) (some ((addr / 4096 + k) * PAGE_SIZE)) =
      fill M (addr, k + 1) := by
  funext v
  by_cases hv : v = addr / 4096 + k
  · have hin : InRegion (addr, k + 1) v := by
      unfold InRegion PAGE_SIZE
      dsimp only
      omega
    rw [hv] at hin ⊢
    rw [Function.update_self, fill, if_pos hin]
  · have hiff : InRegion (addr, k + 1) v ↔ InRegion (addr, k) v := by
      unfold InRegion PAGE_SIZE
      dsimp only
      omega
    rw [Function.update_of_ne hv]
    simp only [fill, hiff]

/-- The elements of an initial segment come in order. -/
theorem eq_length_of_range {n i : ℕ} {before after : List ℕ}
    (h : List.range n = before ++ i :: after) : i = before.length ∧ before.length < n := by
  have hget : (List.range n)[before.length]? = some i := by
    rw [h, List.getElem?_append_right (Nat.le_refl _), Nat.sub_self]
    rfl
  obtain ⟨hlt, heq⟩ := List.getElem?_eq_some_iff.mp hget
  rw [List.getElem_range] at heq
  rw [List.length_range] at hlt
  exact ⟨heq.symm, hlt⟩

/-- The state while a region is being mapped: the table at `a` is in place, and the address space is
`M`. -/
def Filling (pid : ℤ) (l1 a : ℕ) (s : Vm al) (V : View) (M : Space) (s' : Vm al) : Prop :=
  ∃ V' l, Grows pid s V s' V' l ∧ Owns s' V' ∧ V'.space pid = some M ∧ s'.base = s.base ∧
    V'.role a = some (.table pid l1)

/-- **One entry of the loop.** -/
theorem Filling.identityEntry {l1 a k : ℕ} {M : Space} {r : ℕ × ℕ} (hr : r ∈ identityRegions pid)
    (hok : RegionOk r) (hl1 : l1 = r.1 / 2 ^ 22) (hk : k < r.2)
    (hfree : ∀ v, InRegion r v → M v = none)
    (h : Filling pid l1 a s V (fill M (r.1, k)) s') :
    Ends (Earth.identityEntry r.1 LEAF_FLAG a (r.1 / 4096 % 1024) s' k)
      (Filling pid l1 a s V (fill M (r.1, k + 1))) (fun e => e = .noPage) := by
  obtain ⟨addr, n⟩ := r
  obtain ⟨hal, hlt, hfits⟩ := hok
  dsimp only at hal hlt hfits hk hl1 h hfree ⊢
  obtain ⟨V', l, hgrows, howns, hspace, hbase, ha⟩ := h
  -- the page this entry is for
  set v := addr / 4096 + k with hv
  have hl2 : addr / 4096 % 1024 + k < 1024 := by omega
  have hidx : v = l1 * 1024 + (addr / 4096 % 1024 + k) := by omega
  have hin : InRegion (addr, n) v := by
    unfold InRegion PAGE_SIZE
    dsimp only
    omega
  have hnot : ¬ InRegion (addr, k) v := by
    unfold InRegion PAGE_SIZE
    dsimp only
    omega
  have hempty : fill M (addr, k) v = none := by
    rw [fill, if_neg hnot]
    exact hfree v hin
  have hword : s'.mem (a + 4 * (addr / 4096 % 1024 + k)) = 0 := by
    rw [howns.leaf_eq_zero ha hl2, ← hidx, View.lookup, hspace]
    exact hempty
  have hpa : (addr + k * PAGE_SIZE) % 2 ^ 32 = v * PAGE_SIZE := by
    unfold PAGE_SIZE
    omega
  unfold Earth.identityEntry
  refine ends_ensure (fun hne => absurd hword hne) fun _ => ends_pure ?_
  rw [hpa]
  have hnew := howns.newLeaf ha hl2 hspace hidx hempty
    (takes_identity (V := V') ⟨(addr, n), hr, hin⟩)
  refine ⟨⟨V'.role, Function.update V'.space pid _⟩, l,
    ⟨hgrows.calls, hgrows.inUse, hgrows.fresh, hgrows.new, hgrows.old, ?_⟩, hnew, ?_, hbase, ha⟩
  · intro q hq
    rw [← hgrows.space q hq]
    exact Function.update_of_ne hq _ _
  · rw [← fill_succ M hal k]
    exact Function.update_self _ _ _

/-- **`setup_identity_region`.** -/
theorem Owns.setupIdentityRegion {M : Space} {r : ℕ × ℕ} (h : Owns s V) (hb : s.base pid ≠ 0)
    (hM : V.space pid = some M) (hr : r ∈ identityRegions pid) (hok : RegionOk r)
    (hfree : ∀ v, InRegion r v → M v = none) :
    Ends (Earth.setupIdentityRegion s pid r.1 r.2 LEAF_FLAG)
      (fun s' => ∃ V' l, Grows pid s V s' V' l ∧ Owns s' V' ∧ V'.space pid = some (fill M r) ∧
        s'.base = s.base)
      (fun e => e = .noPage) := by
  have hlow : r.1 &&& 0xFFF = 0 := by
    rw [show (0xFFF : ℕ) = 2 ^ 12 - 1 by norm_num, low_bits]
    exact hok.aligned
  have hlt := hok.lt
  have hfits := hok.fits
  unfold Earth.setupIdentityRegion
  rw [l1_index, l2_index]
  refine ends_ensure (fun hne => absurd (show r.2 ≤ 1024 by omega) hne) fun _ => ?_
  refine ends_ensure (fun hne => absurd hlow hne) fun _ => ?_
  refine ends_ensure (fun hz => absurd hb hz) fun _ => ?_
  refine (h.secondLevel hb (by omega)).bind ?_
  rintro ⟨s', a⟩ ⟨V', l, hgrows, howns, hspace, hbase, ha⟩
  refine (Ends.foldlM (P := fun before => Filling pid (r.1 / 2 ^ 22) a s V
    (fill M (r.1, before.length))) (List.range r.2) ?_ ?_).mono ?_ fun _ he => he
  · rw [List.length_nil, fill_zero]
    exact ⟨V', l, hgrows, howns, by rw [hspace, hM], hbase, ha⟩
  · intro before i after t hl ht
    obtain ⟨rfl, hi⟩ := eq_length_of_range hl
    rw [List.length_append, List.length_singleton]
    exact ht.identityEntry hr hok rfl hi hfree
  · intro t ht
    rw [List.length_range] at ht
    obtain ⟨V'', l', h1, h2, h3, h4, -⟩ := ht
    exact ⟨V'', l', h1, h2, h3, h4⟩

/-! ## A new page table -/

/-- The address space of a process when it gets a page table: the regions that it sees at their own
addresses. -/
def identitySpace (pid : ℤ) : Space :=
  fun v => if Identity pid v then some (v * PAGE_SIZE) else none

theorem regionOk_of_mem {r : ℕ × ℕ} (hr : r ∈ identityRegions pid) : RegionOk r := by
  have hall : ∀ r ∈ identityRegions 1 ++ identityRegions 6,
      r.1 % 4096 = 0 ∧ r.1 < 2 ^ 32 ∧ r.1 / 4096 % 1024 + r.2 ≤ 1024 := by decide
  have hmem : r ∈ identityRegions 1 ++ identityRegions 6 := by
    unfold identityRegions at hr
    split_ifs at hr
    · exact List.mem_append_left _ hr
    · exact List.mem_append_right _ hr
  obtain ⟨h1, h2, h3⟩ := hall r hmem
  exact ⟨h1, h2, h3⟩

/-- Two regions have no page in common. -/
def Apart (r r' : ℕ × ℕ) : Prop :=
  r.1 + r.2 * PAGE_SIZE ≤ r'.1 ∨ r'.1 + r'.2 * PAGE_SIZE ≤ r.1

instance (r r' : ℕ × ℕ) : Decidable (Apart r r') := inferInstanceAs (Decidable (_ ∨ _))

theorem identityRegions_apart (pid : ℤ) : (identityRegions pid).Pairwise Apart := by
  unfold identityRegions
  split_ifs
  · decide
  · exact List.pairwise_singleton _ _

theorem Apart.not_inRegion {r r' : ℕ × ℕ} {v : ℕ} (h : Apart r r') (hv : InRegion r' v) :
    ¬ InRegion r v := by
  rintro ⟨hle, hlt⟩
  obtain ⟨hle', hlt'⟩ := hv
  rcases h with h | h
  · exact absurd hlt (not_lt.mpr (h.trans hle'))
  · exact absurd hlt' (not_lt.mpr (h.trans hle))

/-- The address space with these regions mapped to themselves. -/
def filled (rs : List (ℕ × ℕ)) : Space :=
  fun v => if ∃ r ∈ rs, InRegion r v then some (v * PAGE_SIZE) else none

theorem fill_filled (rs : List (ℕ × ℕ)) (r : ℕ × ℕ) : fill (filled rs) r = filled (rs ++ [r]) := by
  funext v
  by_cases hr : InRegion r v
  · have hex : ∃ q ∈ rs ++ [r], InRegion q v := ⟨r, by simp, hr⟩
    rw [fill, if_pos hr, filled, if_pos hex]
  · have hiff : (∃ q ∈ rs ++ [r], InRegion q v) ↔ ∃ q ∈ rs, InRegion q v := by
      simp only [List.mem_append, List.mem_singleton, or_and_right, exists_or, exists_eq_left, hr,
        or_false]
    rw [fill, if_neg hr]
    simp only [filled, hiff]

/-- **A process without a page table gets one.** -/
theorem Owns.newPageTable (h : Owns s V) (hpid : PidOk pid) :
    Ends (Earth.newPageTable s pid)
      (fun s' => ∃ V' l, Grows pid s V s' V' l ∧ Owns s' V' ∧ s'.base pid ≠ 0 ∧
        V'.space pid = some ((V.space pid).getD (identitySpace pid)))
      (fun e => e = .noPage) := by
  unfold Earth.newPageTable
  split_ifs with hb
  · have hnone := (h.mapped pid).mpr hb
    refine (h.pmalloc true).bind ?_
    rintro ⟨s₁, a⟩ ⟨hf, hzero⟩
    have hin : a ∈ al.inUse s₁.heap := by
      rw [hf.inUse]
      exact Set.mem_insert _ _
    have howns := hf.owns.newRoot hpid (by rwa [hf.base]) hf.role hf.isPage hin (hzero rfl)
    have hself : Function.update s₁.base pid a pid = a := Function.update_self _ _ _
    refine (Ends.foldlM (P := fun before s' => ∃ V' l, Grows pid s V s' V' l ∧ Owns s' V' ∧
      s'.base pid = a ∧ V'.space pid = some (filled before)) (identityRegions pid) ?_ ?_).mono ?_
      fun _ he => he
    · refine ⟨(V.setRole a (.root pid)).setSpace pid fun _ => none, [a],
        hf.grows (Or.inl rfl) rfl rfl rfl ?_, howns, hself, ?_⟩
      · exact fun q hq => Function.update_of_ne hq _ _
      · have hempty : filled [] = fun _ => none := by
          funext v
          simp [filled]
        rw [hempty]
        exact Function.update_self _ _ _
    · rintro before r after s' hl ⟨V', l, hgrows, howns', hbase, hspace⟩
      have hr : r ∈ identityRegions pid := by simp [hl]
      -- no region before this one has a page of it
      have hfree : ∀ v, InRegion r v → filled before v = none := by
        intro v hv
        refine if_neg ?_
        rintro ⟨q, hq, hqv⟩
        have hpair := identityRegions_apart pid
        rw [hl, List.pairwise_append] at hpair
        exact (hpair.2.2 q hq r List.mem_cons_self).not_inRegion hv hqv
      have hb' : s'.base pid ≠ 0 := by
        rw [hbase]
        exact hf.isPage.ne_zero
      refine (howns'.setupIdentityRegion hb' hspace hr (regionOk_of_mem hr) hfree).mono ?_
        fun _ he => he
      rintro s'' ⟨V'', l', hgrows', howns'', hspace', hbase'⟩
      refine ⟨V'', l ++ l', hgrows.trans hgrows', howns'', by rw [hbase', hbase], ?_⟩
      rw [hspace', fill_filled]
    · rintro s' ⟨V', l, hgrows, howns', hbase, hspace⟩
      refine ⟨V', l, hgrows, howns', by rw [hbase]; exact hf.isPage.ne_zero, ?_⟩
      rw [hspace, hnone]
      rfl
  · refine ends_pure ⟨V, [], Grows.refl pid s V, h, hb, ?_⟩
    cases hM : V.space pid with
    | none => exact absurd ((h.mapped pid).mp hM) hb
    | some M => rfl

/-! ## Mapping a page -/

/-- The address space of a process that is about to map a page. -/
def current (A : Spaces) (pid : ℤ) : Space := (A pid).getD (identitySpace pid)

/-- The address spaces after virtual page `v` has been mapped to `pa`. -/
def extended (A : Spaces) (pid : ℤ) (v pa : ℕ) : Spaces :=
  Function.update A pid (some (Function.update (current A pid) v (some pa)))

/-- What `page_table_map` has done: the pages `l` have become tables of the process and `pa` a page
of it. -/
structure Maps (pid : ℤ) (v pa : ℕ) (s : Vm al) (V : View) (s' : Vm al) (V' : View) (l : List ℕ) :
    Prop where
  owns : Owns s' V'
  waiting : V.role pa = some .held
  unmapped : current V.space pid v = none
  space : V'.space = extended V.space pid v pa
  calls : s'.calls = s.calls ++ l.map .pmalloc
  inUse : ∀ a, a ∈ al.inUse s'.heap ↔ a ∈ al.inUse s.heap ∨ a ∈ l
  fresh : ∀ a ∈ l, a ∉ al.inUse s.heap ∧ V.role a = none
  new : ∀ a ∈ l, V'.role a = some (.root pid) ∨ ∃ l1, V'.role a = some (.table pid l1)
  data : V'.role pa = some (.data pid v)
  old : ∀ a, a ∉ l → a ≠ pa → V'.role a = V.role a

/-- **`page_table_map`.**  It extends the address space by one page, and it stops at an `ASSERT`
only for a process number out of range or a page that is mapped already. -/
theorem Owns.pageTableMap {vpageNo ppageId : ℕ} (h : Owns s V)
    (hheld : V.role (pageAddr ppageId) = some .held) :
    Ends (Earth.pageTableMap s pid vpageNo ppageId)
      (fun s' => PidOk pid ∧ ∃ V' l, Maps pid (vpageNo % 2 ^ 20) (pageAddr ppageId) s V s' V' l)
      (fun e => e = .noPage ∨ ¬ PidOk pid ∨
        current V.space pid (vpageNo % 2 ^ 20) ≠ none) := by
  have hpage := h.isPage hheld
  have hpa : (ppageId * PAGE_SIZE + APPS_PAGES_BASE) % 2 ^ 32 = pageAddr ppageId := by
    rw [Nat.add_comm]
    exact Nat.mod_eq_of_lt hpage.isFrame.lt
  have hva : vpageNo * PAGE_SIZE % 2 ^ 32 = vpageNo % 2 ^ 20 * 4096 := by
    unfold PAGE_SIZE
    omega
  generalize hv : vpageNo % 2 ^ 20 = v at hva ⊢
  have hvlt : v < 2 ^ 20 := by
    rw [← hv]
    exact Nat.mod_lt _ (by norm_num)
  unfold Earth.pageTableMap
  refine ends_ensure (fun hp => Or.inr (Or.inl hp)) fun hpid => ?_
  rw [hva, hpa]
  refine Ends.bind ((h.newPageTable hpid).mono (fun _ hs => hs) fun _ he => Or.inl he) ?_
  rintro s₁ ⟨V₁, l₁, hgrows₁, howns₁, hb₁, hspace₁⟩
  refine Ends.bind ((howns₁.walk hb₁ (by omega)).mono (fun _ hs => hs) fun _ he => Or.inl he) ?_
  rintro ⟨s₂, pte⟩ ⟨a, ⟨V₂, l₂, hgrows₂, howns₂, hspace₂, hbase₂, ha⟩, hpte⟩
  dsimp only at hgrows₂ howns₂ hbase₂ ha hpte ⊢
  have hgrows := hgrows₁.trans hgrows₂
  -- the indices are those of the page
  have hl1 : v * 4096 / 2 ^ 22 = v / 1024 := by omega
  have hl2 : v * 4096 / 4096 % 1024 = v % 1024 := by omega
  rw [hl1] at ha
  rw [hl2] at hpte
  have hidx : v = v / 1024 * 1024 + v % 1024 := by omega
  have hM : V₂.space pid = some (current V.space pid) := by
    rw [hspace₂, hspace₁]
    rfl
  have hzero : s₂.mem pte = 0 ↔ current V.space pid v = none := by
    rw [hpte, howns₂.leaf_eq_zero ha (by omega), ← hidx, View.lookup, hM]
    rfl
  refine ends_ensure (fun hne => Or.inr (Or.inr ?_)) fun hz => ends_pure ⟨hpid, ?_⟩
  · rwa [hzero] at hne
  · have hfree := hzero.mp hz
    have hstill : V₂.role (pageAddr ppageId) = some .held := by
      have hnotin : pageAddr ppageId ∉ l₁ ++ l₂ := fun hmem => by
        have hfresh := (hgrows.fresh _ hmem).2
        rw [hheld] at hfresh
        cases hfresh
      rw [hgrows.old _ hnotin, hheld]
    have howns := howns₂.newLeaf ha (show v % 1024 < 1024 by omega) hM hidx hfree
      (takes_held hstill)
    rw [← hpte] at howns
    refine ⟨_, l₁ ++ l₂, howns, hheld, hfree, ?_, hgrows.calls, hgrows.inUse, hgrows.fresh,
      fun b hb => ?_, View.setRole_self, fun b hb hne => ?_⟩
    · funext q
      by_cases hq : q = pid
      · rw [hq]
        show Function.update V₂.space pid _ pid = Function.update V.space pid _ pid
        rw [Function.update_self, Function.update_self]
      · show Function.update V₂.space pid _ q = Function.update V.space pid _ q
        rw [Function.update_of_ne hq, Function.update_of_ne hq, hgrows.space q hq]
    · have hne : b ≠ pageAddr ppageId := by
        rintro rfl
        have hfresh := (hgrows.fresh _ hb).2
        rw [hheld] at hfresh
        cases hfresh
      show (V₂.setRole _ _).role b = _ ∨ ∃ l1, (V₂.setRole _ _).role b = _
      rw [View.setRole_of_ne hne]
      exact hgrows.new b hb
    · show (V₂.setRole _ _).role b = _
      rw [View.setRole_of_ne hne]
      exact hgrows.old b hb

/-! ## Translating an address -/

/-- What a virtual address is translated to: the function stops where the page is not mapped. -/
def translation (A : Spaces) (pid : ℤ) (va : ℕ) : Except Stop ℕ :=
  match (A pid).bind fun M => M (va / PAGE_SIZE) with
  | some pa => .ok (pa + va % PAGE_SIZE)
  | none => .error .fatal

theorem assert_bind_of {β : Type} {c : Prop} [Decidable c] {f : PUnit → Except Stop β} (hc : c) :
    assert c >>= f = f ⟨⟩ := by
  unfold assert
  rw [ensure_of hc]
  rfl

theorem assert_bind_not {β : Type} {c : Prop} [Decidable c] {f : PUnit → Except Stop β}
    (hc : ¬ c) : assert c >>= f = .error .fatal := by
  unfold assert ensure
  rw [if_neg hc]
  rfl

/-- `walk`, when it may not allocate: it finds the entry, or there is no table for it. -/
theorem Owns.walk_find {va : ℕ} (h : Owns s V) (hb : s.base pid ≠ 0) (hva : va < 2 ^ 32) :
    (∃ a, V.role a = some (.table pid (va / 2 ^ 22)) ∧
      Earth.walk s (s.base pid) va false = .ok (s, a + 4 * (va / 4096 % 1024))) ∨
    V.lookup pid (va / 4096) = none ∧ Earth.walk s (s.base pid) va false = .error .fatal := by
  have hl1 : va / 2 ^ 22 < 1024 := by omega
  unfold Earth.walk
  rw [l1_index, l2_index, assert_bind_of hb]
  dsimp only
  by_cases hmem : s.mem (s.base pid + 4 * (va / 2 ^ 22)) = 0
  · right
    have hmiss := h.missing hb hmem (show va / 4096 % 1024 < 1024 by omega)
    rw [show va / 2 ^ 22 * 1024 + va / 4096 % 1024 = va / 4096 by omega] at hmiss
    refine ⟨hmiss, ?_⟩
    unfold Earth.allocMissing
    rw [if_pos hmem]
    rfl
  · left
    obtain ⟨a, ha⟩ := (h.entry hb hl1).resolve_left hmem
    obtain ⟨-, -, hentry⟩ := h.table ha
    have hframe := (h.isPage ha).isFrame
    refine ⟨a, ha, ?_⟩
    have hsame : Earth.allocMissing s (s.base pid + 4 * (va / 2 ^ 22)) false = .ok s := by
      unfold Earth.allocMissing
      rw [if_neg hmem]
      rfl
    have hvalid : nextLevel a &&& FLAG_NEXT_LEVEL ≠ 0 := nextLevel_valid hframe
    rw [hsame]
    show (assert _ >>= _) = _
    rw [hentry, assert_bind_of hvalid, pteAddr_nextLevel hframe]
    rfl

/-- **`page_table_translate` computes the address space**, and stops where it is not defined. -/
theorem Owns.pageTableTranslate {va : ℕ} (h : Owns s V) (hva : va < 2 ^ 32) :
    Earth.pageTableTranslate s pid va = translation V.space pid va := by
  have hnone : V.lookup pid (va / 4096) = none → translation V.space pid va = .error .fatal := by
    intro hl
    change (V.space pid).bind (fun M => M (va / PAGE_SIZE)) = none at hl
    unfold translation
    rw [hl]
  unfold Earth.pageTableTranslate
  by_cases hb : s.base pid = 0
  · rw [hnone (lookup_of_unmapped ((h.mapped pid).mpr hb) _)]
    by_cases hpid : PidOk pid
    · rw [assert_bind_of hpid]
      exact assert_bind_not (not_not.mpr hb)
    · rw [assert_bind_not hpid]
  · rw [assert_bind_of (h.base hb).1]
    dsimp only
    rw [assert_bind_of hb]
    rcases h.walk_find hb hva with ⟨a, ha, hwalk⟩ | ⟨hl, hwalk⟩
    · rw [hwalk]
      show (assert _ >>= _) = _
      have hidx : va / 2 ^ 22 * 1024 + va / 4096 % 1024 = va / 4096 := by omega
      have hleaf := h.leaf ha (show va / 4096 % 1024 < 1024 by omega)
      rw [hidx] at hleaf
      rw [hleaf]
      cases hl : V.lookup pid (va / 4096) with
      | none =>
        rw [hnone hl]
        exact assert_bind_not (not_not.mpr rfl)
      | some pa =>
        have hframe := h.target_isFrame hl
        obtain ⟨k, hk, -⟩ := hframe.exists_eq
        have htrans : translation V.space pid va = .ok (pa + va % 4096) := by
          change (V.space pid).bind (fun M => M (va / PAGE_SIZE)) = some pa at hl
          unfold translation
          rw [hl]
          rfl
        have hvalid : Earth.leaf pa LEAF_FLAG &&& PTE_V ≠ 0 := leaf_valid hframe
        rw [htrans]
        show (assert (Earth.leaf pa LEAF_FLAG &&& PTE_V ≠ 0) >>= _) = _
        rw [assert_bind_of hvalid]
        show Except.ok (pteAddr (Earth.leaf pa LEAF_FLAG) ||| (va &&& 0xFFF)) = _
        rw [pteAddr_leaf hframe, show (0xFFF : ℕ) = 2 ^ 12 - 1 by norm_num, low_bits, hk,
          show k * 4096 = k * 2 ^ 12 by norm_num, mul_or k (Nat.mod_lt _ (by norm_num))]
        norm_num
    · rw [hwalk, hnone hl]
      rfl

end Earth
end EgosNet
