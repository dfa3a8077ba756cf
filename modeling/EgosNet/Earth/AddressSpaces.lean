import EgosNet.Earth.Release

/-!
# Address spaces

What `mem_vm.c` is for: every process has an address space, a partial map from virtual to physical
pages.  `Spaces` is that and nothing more --- no tables, no allocator --- with one step for each
request (`spaceStep`).

A request to the file is a step of the address spaces, in every run in which a page that is mapped
has been handed out for this (`refines_spaces`).  What ties the two together is `Keeps`: the view of
the pages is right, and the pages that wait in it are those that have been handed out.  The three
inversion lemmas `Keeps.alloc`, `Keeps.map` and `Keeps.free` say what a step does to the view;
whatever is proved about runs is read off them.
-/

namespace EgosNet
namespace Earth

open Foundation

variable {al : Allocator} {w w' : World al} {V : View} {pid : ℤ} {o : Done} {mem : Words}
  {heap : al.State} {is : List Op} {os : List Done}

/-! ## The guard -/

/-- A page is mapped only if it has been handed out for this one call. -/
def Handed (w : World al) : Op → Prop
  | .map _ _ ppageId => pageAddr ppageId ∈ w.held
  | .alloc _ => True
  | .free _ => True

instance (w : World al) (i : Op) : Decidable (Handed w i) :=
  match i with
  | .map _ _ ppageId => inferInstanceAs (Decidable (pageAddr ppageId ∈ w.held))
  | .alloc _ => .isTrue trivial
  | .free _ => .isTrue trivial

/-- The virtual page number has twenty bits. -/
def PageNoOk : Op → Prop
  | .map _ vpageNo _ => vpageNo < 2 ^ 20
  | .alloc _ => True
  | .free _ => True

instance (i : Op) : Decidable (PageNoOk i) :=
  match i with
  | .map _ vpageNo _ => inferInstanceAs (Decidable (vpageNo < 2 ^ 20))
  | .alloc _ => .isTrue trivial
  | .free _ => .isTrue trivial

/-- A request that is made as it should be. -/
def Valid (w : World al) (i : Op) : Prop := Handed w i ∧ PageNoOk i

instance (w : World al) (i : Op) : Decidable (Valid w i) := inferInstanceAs (Decidable (_ ∧ _))

/-! ## One step -/

/-- The view is right, and the pages that wait are those that have been handed out. -/
structure Keeps (w : World al) (V : View) : Prop where
  owns : Owns w.vm V
  held : ∀ a, V.role a = some .held ↔ a ∈ w.held

/-- The state with an empty record of calls, from which a step starts. -/
def Vm.quiet (s : Vm al) : Vm al := { s with calls := [] }

theorem Owns.quiet {s : Vm al} (h : Owns s V) : Owns s.quiet V :=
  h.frame rfl (fun _ _ _ => rfl) fun _ _ hr => h.inUse hr

theorem vmStep_eq_some {i : Op} (h : vmStep w i = some (w', o)) :
    perform w.vm.quiet i = .ok w'.vm ∧ w'.held = hold w.held w'.vm.calls i ∧
      o = ⟨i, w'.vm.calls⟩ := by
  unfold vmStep at h
  split at h
  · cases h
  · rename_i s hs
    obtain ⟨rfl, rfl⟩ := Prod.mk.inj (Option.some.inj h)
    exact ⟨hs, rfl, rfl⟩

/-- **A page is handed out.** -/
theorem Keeps.alloc {c : Bool} (h : Keeps w V) (hf : vmStep w (.alloc c) = some (w', o)) :
    ∃ a, Fresh w.vm.quiet V w'.vm a ∧ o.op = .alloc c ∧ w'.held = insert a w.held ∧
      Keeps w' (V.setRole a .held) := by
  obtain ⟨hperform, hheld, rfl⟩ := vmStep_eq_some hf
  have hends : Ends (perform w.vm.quiet (.alloc c)) (fun s => ∃ a, Fresh w.vm.quiet V s a)
      (fun _ => True) := by
    refine ((h.owns.quiet.pmalloc c).mono (fun _ hr => hr) fun _ _ => trivial).bind ?_
    rintro ⟨s, a⟩ ⟨hfresh, -⟩
    exact ends_pure ⟨a, hfresh⟩
  obtain ⟨a, hfresh⟩ := hends.of_ok hperform
  have hcalls : w'.vm.calls = [.pmalloc a] := by
    rw [hfresh.calls]
    rfl
  rw [hcalls] at hheld
  have hheld' : w'.held = insert a w.held := hheld
  refine ⟨a, hfresh, rfl, hheld', ?_, fun b => ?_⟩
  · refine hfresh.owns.newHeld hfresh.role hfresh.isPage ?_
    rw [hfresh.inUse]
    exact Set.mem_insert _ _
  · rw [hheld', Finset.mem_insert]
    by_cases hb : b = a
    · rw [hb, View.setRole_self]
      exact iff_of_true rfl (Or.inl rfl)
    · rw [View.setRole_of_ne hb, h.held]
      exact (or_iff_right hb).symm

/-- **A page is mapped.** -/
theorem Keeps.map {v p : ℕ} (h : Keeps w V) (hp : pageAddr p ∈ w.held)
    (hf : vmStep w (.map pid v p) = some (w', o)) :
    PidOk pid ∧ ∃ V' l, Maps pid (v % 2 ^ 20) (pageAddr p) w.vm.quiet V w'.vm V' l ∧
      o = ⟨.map pid v p, l.map .pmalloc⟩ ∧ w'.held = w.held.erase (pageAddr p) ∧ Keeps w' V' := by
  obtain ⟨hperform, hheld, rfl⟩ := vmStep_eq_some hf
  obtain ⟨hpid, V', l, hmaps⟩ :=
    (h.owns.quiet.pageTableMap ((h.held _).mpr hp)).of_ok hperform
  have hheld' : w'.held = w.held.erase (pageAddr p) := hheld
  refine ⟨hpid, V', l, hmaps, ?_, hheld', hmaps.owns, fun a => ?_⟩
  · rw [hmaps.calls]
    rfl
  · rw [hheld', Finset.mem_erase, ← h.held]
    by_cases ha : a = pageAddr p
    · rw [ha, hmaps.data]
      simp
    · by_cases hl : a ∈ l
      · -- a new table is not a page that waits, and it had no role before
        rw [(hmaps.fresh a hl).2]
        rcases hmaps.new a hl with hr | ⟨l1, hr⟩
        · simp [hr]
        · simp [hr]
      · rw [hmaps.old a hl ha]
        exact (and_iff_right ha).symm

/-- **A page table is released.** -/
theorem Keeps.free (h : Keeps w V) (hf : vmStep w (.free pid) = some (w', o)) :
    PidOk pid ∧ ∃ l, Frees pid w.vm.quiet V w'.vm l ∧ o = ⟨.free pid, l.map .pfree⟩ ∧
      w'.held = w.held ∧ Keeps w' (V.release pid) := by
  obtain ⟨hperform, hheld, rfl⟩ := vmStep_eq_some hf
  obtain ⟨hpid, l, hfrees⟩ := h.owns.quiet.pageTableFree.of_ok hperform
  refine ⟨hpid, l, hfrees, ?_, hheld, hfrees.owns, fun a => ?_⟩
  · rw [hfrees.calls]
    rfl
  · rw [show w'.held = w.held from hheld, ← h.held]
    refine ⟨fun hr => (View.role_of_release hr).1, fun hr => View.release_of_owner hr ?_⟩
    simp [Role.owner]

/-- Nothing has happened yet. -/
theorem keeps_init (mem : Words) (heap : al.State) :
    Keeps (World.init mem heap) ⟨fun _ => none, fun _ => none⟩ := by
  refine ⟨⟨?_, ?_, ?_, ?_, ?_, ?_, ?_, ?_, ?_, ?_, ?_⟩, fun a => ?_⟩
  · exact fun hr => absurd hr (by simp)
  · exact fun hr => absurd hr (by simp)
  · exact fun hb => absurd rfl hb
  · exact fun hr => absurd hr (by simp)
  · exact fun q => iff_of_true rfl rfl
  · exact fun hb => absurd rfl hb
  · exact fun hr => absurd hr (by simp)
  · exact fun hr => absurd hr (by simp)
  · exact fun hb => absurd rfl hb
  · exact fun hl => absurd hl (by simp [View.lookup])
  · exact fun hr => absurd hr (by simp)
  · exact iff_of_false (by simp) (Finset.notMem_empty a)

/-! ## The abstract machine -/

/-- What a request does to the address spaces.  A process that maps a page for the first time starts
with the regions it sees at their own addresses; a page is mapped once. -/
def spaceStep (A : Spaces) : Op → Option (Spaces × Unit)
  | .alloc _ => some (A, ())
  | .map pid vpageNo ppageId =>
    if PidOk pid ∧ current A pid vpageNo = none then
      some (extended A pid vpageNo (pageAddr ppageId), ())
    else none
  | .free pid => if PidOk pid then some (Function.update A pid none, ()) else none

/-- The process that a request is for. -/
def Op.process : Op → Option ℤ
  | .alloc _ => none
  | .map pid _ _ => some pid
  | .free pid => some pid

/-- A request changes the address space of no other process. -/
theorem spaceStep_of_ne {A A' : Spaces} {i : Op} {q : ℤ} (h : spaceStep A i = some (A', ()))
    (hq : i.process ≠ some q) : A' q = A q := by
  cases i with
  | alloc c =>
    obtain ⟨rfl, -⟩ := Prod.mk.inj (Option.some.inj h)
    rfl
  | map pid v p =>
    have hne : q ≠ pid := fun heq => hq (congrArg some heq.symm)
    unfold spaceStep at h
    dsimp only at h
    split_ifs at h
    obtain ⟨rfl, -⟩ := Prod.mk.inj (Option.some.inj h)
    exact Function.update_of_ne hne _ _
  | free pid =>
    have hne : q ≠ pid := fun heq => hq (congrArg some heq.symm)
    unfold spaceStep at h
    dsimp only at h
    split_ifs at h
    obtain ⟨rfl, -⟩ := Prod.mk.inj (Option.some.inj h)
    exact Function.update_of_ne hne _ _

/-- **A step of the program is a step of the address spaces.** -/
theorem Keeps.simulates {i : Op} (h : Keeps w V) (hC : Valid w i)
    (hf : vmStep w i = some (w', o)) :
    ∃ V', Keeps w' V' ∧ spaceStep V.space i = some (V'.space, ()) := by
  cases i with
  | alloc c =>
    obtain ⟨a, -, -, -, hkeeps⟩ := h.alloc hf
    exact ⟨_, hkeeps, rfl⟩
  | map pid v p =>
    obtain ⟨hpid, V', l, hmaps, -, -, hkeeps⟩ := h.map hC.1 hf
    have hv : v % 2 ^ 20 = v := Nat.mod_eq_of_lt hC.2
    rw [hv] at hmaps
    refine ⟨V', hkeeps, ?_⟩
    unfold spaceStep
    dsimp only
    rw [if_pos ⟨hpid, hmaps.unmapped⟩, hmaps.space]
  | free pid =>
    obtain ⟨hpid, l, -, -, -, hkeeps⟩ := h.free hf
    refine ⟨_, hkeeps, ?_⟩
    unfold spaceStep
    dsimp only
    rw [if_pos hpid]
    rfl

theorem op_of_vmStep {i : Op} (h : vmStep w i = some (w', o)) : o.op = i := by
  obtain ⟨-, -, rfl⟩ := vmStep_eq_some h
  rfl

/-- A run shows its requests. -/
theorem ops_of_run {C : World al → Op → Prop} {w₀ : World al} (h : Run vmStep C w₀ is os w) :
    os.map Done.op = is := by
  induction h with
  | nil => rfl
  | snoc _ _ hf ih => rw [List.map_append, ih, List.map_singleton, op_of_vmStep hf]

/-! ## An allocator

The laws of `Allocator` can be met: here is one that keeps the numbers of the free pages in a list.
-/

theorem pageAddr_inj {j k : ℕ} (h : pageAddr j = pageAddr k) : j = k := by
  unfold pageAddr PAGE_SIZE at h
  omega

theorem pageAddr_isPage {k : ℕ} (hk : k < APPS_PAGES_CNT) : IsPage (pageAddr k) := by
  have hcnt : APPS_PAGES_CNT = 1024 := by decide
  rw [hcnt] at hk
  refine ⟨?_, Nat.le_add_right _ _, ?_⟩
  · exact (Nat.dvd_add_right (by decide)).mpr (Dvd.intro_left k rfl)
  · unfold pageAddr APPS_PAGES_BASE RAM_END PAGE_SIZE
    omega

/-- The numbers of the pages that are free. -/
structure FreeList where
  pages : List ℕ
  nodup : pages.Nodup
  lt : ∀ k ∈ pages, k < APPS_PAGES_CNT

namespace FreeList

def inUse (s : FreeList) : Set ℕ := { a | ∃ k, k < APPS_PAGES_CNT ∧ k ∉ s.pages ∧ a = pageAddr k }

def pmalloc (s : FreeList) (m : Words) (clearPage : Bool) : Option (FreeList × Words × ℕ) :=
  match s with
  | ⟨[], _, _⟩ => none
  | ⟨k :: l, hnodup, hlt⟩ =>
    some (⟨l, hnodup.of_cons, fun j hj => hlt j (List.mem_cons_of_mem k hj)⟩,
      fun w => if clearPage = true ∧ pageOf w = pageAddr k then 0 else m w, pageAddr k)

/-- The number of the page at this address. -/
def pageNo (a : ℕ) : ℕ := (a - APPS_PAGES_BASE) / PAGE_SIZE

def pfree (s : FreeList) (m : Words) (a : ℕ) : FreeList × Words :=
  if h : pageNo a < APPS_PAGES_CNT ∧ pageNo a ∉ s.pages then
    (⟨pageNo a :: s.pages, List.nodup_cons.mpr ⟨h.2, s.nodup⟩,
      List.forall_mem_cons.mpr ⟨h.1, s.lt⟩⟩, m)
  else (s, m)

theorem pageNo_pageAddr (k : ℕ) : pageNo (pageAddr k) = k := by
  unfold pageNo pageAddr
  rw [Nat.add_sub_cancel_left]
  exact Nat.mul_div_cancel k (by decide)

theorem pfree_pages {s : FreeList} {k : ℕ} (m : Words) (hk : k < APPS_PAGES_CNT)
    (hnot : k ∉ s.pages) : (s.pfree m (pageAddr k)).1.pages = k :: s.pages := by
  have hcond : pageNo (pageAddr k) < APPS_PAGES_CNT ∧ pageNo (pageAddr k) ∉ s.pages := by
    rw [pageNo_pageAddr]
    exact ⟨hk, hnot⟩
  unfold pfree
  rw [dif_pos hcond]
  show pageNo (pageAddr k) :: s.pages = k :: s.pages
  rw [pageNo_pageAddr]

theorem pfree_words (s : FreeList) (m : Words) (a : ℕ) : (s.pfree m a).2 = m := by
  unfold pfree
  split_ifs
  · rfl
  · rfl

theorem mem_inUse {s : FreeList} {a : ℕ} :
    a ∈ s.inUse ↔ ∃ k, k < APPS_PAGES_CNT ∧ k ∉ s.pages ∧ a = pageAddr k := Iff.rfl

theorem pmalloc_eq_some {s s' : FreeList} {m m' : Words} {c : Bool} {a : ℕ}
    (h : s.pmalloc m c = some (s', m', a)) :
    ∃ k, s.pages = k :: s'.pages ∧ a = pageAddr k ∧
      m' = fun w => if c = true ∧ pageOf w = pageAddr k then 0 else m w := by
  obtain ⟨_ | ⟨k, l⟩, hnodup, hlt⟩ := s
  · cases h
  · obtain ⟨h1, h2⟩ := Prod.mk.inj (Option.some.inj h)
    obtain ⟨h2, h3⟩ := Prod.mk.inj h2
    exact ⟨k, by rw [← h1], h3.symm, h2.symm⟩

end FreeList

open FreeList in
/-- **An allocator that keeps a list of the free pages** has all that is asked of one. -/
def freeList : Allocator where
  State := FreeList
  inUse := inUse
  pmalloc := pmalloc
  pfree := pfree
  pmalloc_page := by
    intro s m c s' m' a hp
    obtain ⟨k, hk, rfl, -⟩ := pmalloc_eq_some hp
    exact pageAddr_isPage (s.lt k (by rw [hk]; exact List.mem_cons_self))
  pmalloc_fresh := by
    intro s m c s' m' a hp
    obtain ⟨k, hk, rfl, -⟩ := pmalloc_eq_some hp
    rintro ⟨j, -, hj, heq⟩
    rw [hk, pageAddr_inj heq] at hj
    exact hj List.mem_cons_self
  pmalloc_inUse := by
    intro s m c s' m' a hp
    obtain ⟨k, hk, rfl, -⟩ := pmalloc_eq_some hp
    have hkout : k ∉ s'.pages := by
      have hnodup := s.nodup
      rw [hk] at hnodup
      exact (List.nodup_cons.mp hnodup).1
    ext b
    constructor
    · rintro ⟨j, hj, hnot, rfl⟩
      by_cases hjk : j = k
      · rw [hjk]
        exact Set.mem_insert _ _
      · refine Or.inr ⟨j, hj, ?_, rfl⟩
        rw [hk, List.mem_cons, not_or]
        exact ⟨hjk, hnot⟩
    · rintro (rfl | ⟨j, hj, hnot, rfl⟩)
      · exact ⟨k, s.lt k (by rw [hk]; exact List.mem_cons_self), hkout, rfl⟩
      · rw [hk, List.mem_cons, not_or] at hnot
        exact ⟨j, hj, hnot.2, rfl⟩
  pmalloc_zero := by
    intro s m s' m' a hp i hi
    obtain ⟨k, hk, rfl, rfl⟩ := pmalloc_eq_some hp
    have hpage := pageAddr_isPage (s.lt k (by rw [hk]; exact List.mem_cons_self))
    exact if_pos ⟨rfl, pageOf_word hpage.aligned hi⟩
  pmalloc_frame := by
    intro s m c s' m' a hp w hw
    obtain ⟨k, hk, rfl, rfl⟩ := pmalloc_eq_some hp
    obtain ⟨j, -, hnot, hj⟩ := hw
    refine if_neg ?_
    rintro ⟨-, heq⟩
    rw [hk, ← pageAddr_inj (heq.symm.trans hj)] at hnot
    exact hnot List.mem_cons_self
  pfree_inUse := by
    rintro s m a ⟨k, hk, hnot, rfl⟩
    ext b
    rw [mem_inUse, pfree_pages m hk hnot]
    constructor
    · rintro ⟨j, hj, hnotj, rfl⟩
      rw [List.mem_cons, not_or] at hnotj
      exact ⟨⟨j, hj, hnotj.2, rfl⟩, fun heq => hnotj.1 (pageAddr_inj heq)⟩
    · rintro ⟨⟨j, hj, hnotj, rfl⟩, hne⟩
      refine ⟨j, hj, ?_, rfl⟩
      rw [List.mem_cons, not_or]
      exact ⟨fun heq => hne (congrArg pageAddr heq), hnotj⟩
  pfree_frame := by
    intro s m a _ w _ _
    exact congrFun (pfree_words s m a) w

/-! ## Refinement -/

/-- What is known of `page_table_map` in a state with these address spaces. -/
theorem Keeps.pageTableMap {v p : ℕ} (h : Keeps w V) (hC : Valid w (.map pid v p)) :
    Ends (Earth.pageTableMap w.vm pid v p) (fun _ => PidOk pid ∧ current V.space pid v = none)
      (fun e => e = .noPage ∨ ¬ PidOk pid ∨ current V.space pid v ≠ none) := by
  have hv : v % 2 ^ 20 = v := Nat.mod_eq_of_lt hC.2
  refine (h.owns.pageTableMap ((h.held _).mpr hC.1)).mono ?_ ?_
  · rintro s' ⟨hpid, V', l, hmaps⟩
    have hfree := hmaps.unmapped
    rw [hv] at hfree
    exact ⟨hpid, hfree⟩
  · intro e he
    rwa [hv] at he

/-- **The page tables are the address spaces.**  Every run of the program in which a page that is
mapped has been handed out for this is a run of the abstract machine, and in the state it leads to

* `page_table_translate` computes the address spaces, for every process number and every address of
  32 bits, and stops where they are not defined;
* `page_table_map` returns only for a page that is not mapped, and stops only if the process number
  is out of range, the page is mapped already or there is no page left;
* no request for one process changes the translations of another. -/
theorem refines_spaces (h : Run vmStep Valid (World.init mem heap) is os w) :
    ∃ A us, Run spaceStep Free (fun _ => none) is us A ∧
      (∀ pid va, va < 2 ^ 32 → pageTableTranslate w.vm pid va = translation A pid va) ∧
      (∀ pid v p, Valid w (.map pid v p) →
        Ends (pageTableMap w.vm pid v p) (fun _ => PidOk pid ∧ current A pid v = none)
          (fun e => e = .noPage ∨ ¬ PidOk pid ∨ current A pid v ≠ none)) ∧
      ∀ i w' o, Valid w i → vmStep w i = some (w', o) → ∀ q, i.process ≠ some q → ∀ va < 2 ^ 32,
        pageTableTranslate w'.vm q va = pageTableTranslate w.vm q va := by
  have hsim : ∀ (w : World al) (A : Spaces) (i : Op) (w' : World al) (o : Done),
      (∃ V, Keeps w V ∧ V.space = A) → Valid w i → vmStep w i = some (w', o) →
      ∃ A', spaceStep A o.op = some (A', ()) ∧ ∃ V, Keeps w' V ∧ V.space = A' := by
    rintro w A i w' o ⟨V, hV, rfl⟩ hC hf
    obtain ⟨V', hV', hstep⟩ := hV.simulates hC hf
    rw [op_of_vmStep hf]
    exact ⟨V'.space, hstep, V', hV', rfl⟩
  obtain ⟨A, us, hrun, V, hV, rfl⟩ := h.simulate ⟨_, keeps_init mem heap, rfl⟩ hsim
  rw [ops_of_run h] at hrun
  refine ⟨V.space, us, hrun, fun pid va hva => hV.owns.pageTableTranslate hva,
    fun pid v p hC => hV.pageTableMap hC, ?_⟩
  intro i w' o hC hf q hq va hva
  obtain ⟨V', hV', hstep⟩ := hV.simulates hC hf
  rw [hV'.owns.pageTableTranslate hva, hV.owns.pageTableTranslate hva]
  unfold translation
  rw [spaceStep_of_ne hstep hq]

/-- A few free pages. -/
def someFree : freeList.State := ⟨[0, 1, 2, 3, 4, 5], by decide, by decide⟩

/-- A page is handed out and mapped where the code of an application starts. -/
def mapsCode : List Op := [.alloc false, .map 6 0x80200 0]

theorem mapsCode_valid :
    ∃ r, exec (guarded vmStep Valid) (World.init (fun _ => 0) someFree) mapsCode = some r ∧
      pageTableTranslate r.1.vm 6 0x80200004 = .ok 0x80400004 := by
  have hsome : (exec (guarded vmStep Valid) (World.init (fun _ => 0) someFree) mapsCode).map
      (fun r => pageTableTranslate r.1.vm 6 0x80200004) = some (.ok 0x80400004) := by decide +kernel
  obtain ⟨r, hr, htrans⟩ := Option.map_eq_some_iff.mp hsome
  exact ⟨r, hr, htrans⟩

theorem refines_spaces_mapsCode :
    ∃ os w, Run vmStep Valid (World.init (fun _ => 0) someFree) mapsCode os w ∧
      pageTableTranslate w.vm 6 0x80200004 = .ok 0x80400004 ∧
      ∃ A us, Run spaceStep Free (fun _ => none) mapsCode us A ∧
        ∀ pid va, va < 2 ^ 32 → pageTableTranslate w.vm pid va = translation A pid va := by
  obtain ⟨⟨w, os⟩, hexec, htrans⟩ := mapsCode_valid
  have hrun := run_of_exec_guarded hexec
  obtain ⟨A, us, hA, hall, -⟩ := refines_spaces hrun
  exact ⟨os, w, hrun, htrans, A, us, hA, hall⟩

end Earth
end EgosNet
