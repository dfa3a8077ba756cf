import EgosNet.Earth.Mapping

/-!
# Releasing a page table

`page_table_free` goes through the two levels of a table and gives back the pages of the process,
the second-level tables and the root.  What is a page of the process it has to guess: it takes an
entry for one if the page is in the range of the allocator and not at the address it is mapped at.
So a page that happens to be mapped at its own address is not given back.  Nothing else is missed,
and nothing that does not belong to the process is given back (`Released`).

The loops read the tables while pages are being given back.  A table is read only before it is given
back itself, and as every page has one role, what was given back before is another page; so all of
them are read as they were at the start (`Freed`).
-/

namespace EgosNet
namespace Earth

open Foundation

variable {al : Allocator} {s s' : Vm al} {V : View} {pid : ℤ} {a : ℕ}

/-! ## What belongs to a process -/

/-- The process that a page with this role belongs to. -/
def Role.owner : Role → Option ℤ
  | .root pid => some pid
  | .table pid _ => some pid
  | .data pid _ => some pid
  | .held => none

/-- The page is a table or a page of the process. -/
def Belongs (V : View) (pid : ℤ) (a : ℕ) : Prop := ∃ r, V.role a = some r ∧ r.owner = some pid

/-- The page is given back with the page table. -/
def Released (V : View) (pid : ℤ) (a : ℕ) : Prop :=
  ∃ r, V.role a = some r ∧ r.owner = some pid ∧ ∀ v, r = .data pid v → a ≠ v * PAGE_SIZE

/-- Nothing belongs to the process any more, and it has no address space. -/
noncomputable def View.release (V : View) (pid : ℤ) : View :=
  open Classical in
  ⟨fun a => if Belongs V pid a then none else V.role a, Function.update V.space pid none⟩

theorem View.role_of_release {r : Role} (h : (V.release pid).role a = some r) :
    V.role a = some r ∧ r.owner ≠ some pid := by
  unfold View.release at h
  dsimp only at h
  split_ifs at h with hb
  exact ⟨h, fun ho => hb ⟨r, h, ho⟩⟩

theorem View.release_of_owner {r : Role} (h : V.role a = some r) (ho : r.owner ≠ some pid) :
    (V.release pid).role a = some r := by
  have hnot : ¬ Belongs V pid a := by
    rintro ⟨r', hr', ho'⟩
    obtain rfl := Option.some.inj (h.symm.trans hr')
    exact ho ho'
  unfold View.release
  dsimp only
  rw [if_neg hnot, h]

theorem View.release_lookup_self (v : ℕ) : (V.release pid).lookup pid v = none := by
  show (Function.update V.space pid none pid).bind (fun M => M v) = none
  rw [Function.update_self]
  rfl

theorem View.release_lookup_of_ne {q : ℤ} (h : q ≠ pid) (v : ℕ) :
    (V.release pid).lookup q v = V.lookup q v := by
  show (Function.update V.space pid none q).bind (fun M => M v) = V.lookup q v
  rw [Function.update_of_ne h]
  rfl

/-- A process without a page table has nothing. -/
theorem Owns.base_of_belongs (h : Owns s V) (hb : Belongs V pid a) : s.base pid ≠ 0 := by
  obtain ⟨r, hr, ho⟩ := hb
  cases r with
  | root q =>
    obtain rfl := Option.some.inj ho
    rw [h.root hr]
    exact (h.isPage hr).ne_zero
  | table q l1 =>
    obtain rfl := Option.some.inj ho
    exact (h.table hr).2.1
  | data q v =>
    obtain rfl := Option.some.inj ho
    intro hz
    have hv := h.data hr
    rw [lookup_of_unmapped ((h.mapped q).mpr hz)] at hv
    cases hv
  | held => cases ho

/-- **A view without the process.** -/
theorem Owns.release (h : Owns s V) (pid : ℤ) :
    Owns { s with base := Function.update s.base pid 0 } (V.release pid) := by
  have hself : Function.update s.base pid 0 pid = 0 := Function.update_self _ _ _
  have hother {q : ℤ} (hq : q ≠ pid) : Function.update s.base pid 0 q = s.base q :=
    Function.update_of_ne hq _ _
  -- a process that has a table is another one
  have hne {q : ℤ} (hq : Function.update s.base pid 0 q ≠ 0) : q ≠ pid := by
    rintro rfl
    exact hq hself
  have howner {q : ℤ} (hq : q ≠ pid) : some q ≠ some pid := fun heq => hq (Option.some.inj heq)
  constructor
  case inUse => exact fun hr => h.inUse (View.role_of_release hr).1
  case isPage => exact fun hr => h.isPage (View.role_of_release hr).1
  case base =>
    intro q hq
    have hqp := hne hq
    change Function.update s.base pid 0 q ≠ 0 at hq
    show PidOk q ∧ (V.release pid).role (Function.update s.base pid 0 q) = _
    rw [hother hqp] at hq ⊢
    exact ⟨(h.base hq).1, View.release_of_owner (h.base hq).2 (howner hqp)⟩
  case root =>
    intro b q hr
    obtain ⟨hr, ho⟩ := View.role_of_release hr
    show Function.update s.base pid 0 q = b
    rw [hother fun heq => ho (congrArg some heq)]
    exact h.root hr
  case mapped =>
    intro q
    show Function.update V.space pid none q = none ↔ Function.update s.base pid 0 q = 0
    by_cases hqp : q = pid
    · rw [hqp, hself, Function.update_self]
      exact iff_of_true rfl rfl
    · rw [hother hqp, Function.update_of_ne hqp]
      exact h.mapped q
  case entry =>
    intro q l1 hq hl1
    have hqp := hne hq
    change Function.update s.base pid 0 q ≠ 0 at hq
    show s.mem (Function.update s.base pid 0 q + 4 * l1) = 0 ∨ _
    rw [hother hqp] at hq ⊢
    rcases h.entry hq hl1 with hz | ⟨b, hb⟩
    · exact Or.inl hz
    · exact Or.inr ⟨b, View.release_of_owner hb (howner hqp)⟩
  case table =>
    intro b q l1 hr
    obtain ⟨hr, ho⟩ := View.role_of_release hr
    show l1 < 1024 ∧ Function.update s.base pid 0 q ≠ 0 ∧
      s.mem (Function.update s.base pid 0 q + 4 * l1) = _
    rw [hother fun heq => ho (congrArg some heq)]
    exact h.table hr
  case leaf =>
    intro b q l1 l2 hr hl2
    obtain ⟨hr, ho⟩ := View.role_of_release hr
    rw [View.release_lookup_of_ne fun heq => ho (congrArg some heq)]
    exact h.leaf hr hl2
  case missing =>
    intro q l1 l2 hq hm hl2
    have hqp := hne hq
    change Function.update s.base pid 0 q ≠ 0 at hq
    change s.mem (Function.update s.base pid 0 q + 4 * l1) = 0 at hm
    rw [hother hqp] at hq hm
    rw [View.release_lookup_of_ne hqp]
    exact h.missing hq hm hl2
  case target =>
    intro q v x hv
    have hqp : q ≠ pid := by
      rintro rfl
      rw [View.release_lookup_self] at hv
      cases hv
    rw [View.release_lookup_of_ne hqp] at hv
    obtain ⟨hlt, hid | hr⟩ := h.target hv
    · exact ⟨hlt, Or.inl hid⟩
    · exact ⟨hlt, Or.inr (View.release_of_owner hr (howner hqp))⟩
  case data =>
    intro b q v hr
    obtain ⟨hr, ho⟩ := View.role_of_release hr
    rw [View.release_lookup_of_ne fun heq => ho (congrArg some heq)]
    exact h.data hr

/-! ## Giving back pages -/

/-- From one state to the other the pages `l`, all of them different, have been given back.  The
other pages that were in use are as they were. -/
structure Freed (s s' : Vm al) (l : List ℕ) : Prop where
  calls : s'.calls = s.calls ++ l.map .pfree
  nodup : l.Nodup
  inUse : ∀ b, b ∈ al.inUse s'.heap ↔ b ∈ al.inUse s.heap ∧ b ∉ l
  words : ∀ w, pageOf w ∈ al.inUse s.heap → pageOf w ∉ l → s'.mem w = s.mem w
  base : s'.base = s.base

theorem Freed.refl (s : Vm al) : Freed s s [] :=
  ⟨by simp, List.nodup_nil, by simp, fun _ _ _ => rfl, rfl⟩

/-- **One more page.** -/
theorem Freed.pfree {l : List ℕ} (h : Freed s s' l) (ha : a ∈ al.inUse s.heap) (hnot : a ∉ l) :
    Freed s (s'.pfree a) (l ++ [a]) := by
  have hin : a ∈ al.inUse s'.heap := (h.inUse a).mpr ⟨ha, hnot⟩
  refine ⟨?_, ?_, fun b => ?_, fun w hw hout => ?_, h.base⟩
  · show s'.calls ++ [.pfree a] = _
    rw [h.calls, List.map_append, List.append_assoc]
    rfl
  · rw [List.nodup_append]
    refine ⟨h.nodup, List.nodup_singleton a, fun b hb c hc heq => hnot ?_⟩
    rwa [← List.mem_singleton.mp hc, ← heq]
  · show b ∈ al.inUse (al.pfree s'.heap s'.mem a).1 ↔ _
    rw [al.pfree_inUse hin, Set.mem_sdiff, Set.mem_singleton_iff, h.inUse, List.mem_append,
      List.mem_singleton, not_or, and_assoc]
  · rw [List.mem_append, List.mem_singleton, not_or] at hout
    show (al.pfree s'.heap s'.mem a).2 w = s.mem w
    rw [al.pfree_frame hin w ((h.inUse _).mpr ⟨hw, hout.1⟩) hout.2, h.words w hw hout.1]

/-! ## The loops -/

/-- The page is a second-level table before `l1` or a page of the process before `v`, and not one
that is missed. -/
def Before (V : View) (pid : ℤ) (l1 v a : ℕ) : Prop :=
  (∃ k < l1, V.role a = some (.table pid k)) ∨
    ∃ x < v, V.role a = some (.data pid x) ∧ a ≠ x * PAGE_SIZE

/-- The state of the loops: what comes before has been given back. -/
def Freeing (V : View) (pid : ℤ) (s : Vm al) (l1 v : ℕ) (s' : Vm al) : Prop :=
  ∃ l, Freed s s' l ∧ ∀ a, a ∈ l ↔ Before V pid l1 v a

section Loops

variable {l1 l2 : ℕ}

/-- A word of a page that has not been given back is as it was. -/
theorem Freeing.word {v b i : ℕ} {r : Role} (hV : Owns s V) (h : Freeing V pid s l1 v s')
    (hr : V.role b = some r) (hi : i < 1024) (hnot : ¬ Before V pid l1 v b) :
    s'.mem (b + 4 * i) = s.mem (b + 4 * i) := by
  obtain ⟨l, hfreed, hmem⟩ := h
  have hpage : pageOf (b + 4 * i) = b := pageOf_word (hV.isPage hr).aligned hi
  refine hfreed.words _ ?_ ?_
  · rw [hpage]
    exact hV.inUse hr
  · rwa [hpage, hmem]

/-- One more page has been given back. -/
theorem Freeing.pfree {v m w : ℕ} {r : Role} (hV : Owns s V) (h : Freeing V pid s l1 v s')
    (hr : V.role a = some r) (hnot : ¬ Before V pid l1 v a)
    (hiff : ∀ b, Before V pid m w b ↔ Before V pid l1 v b ∨ b = a) :
    Freeing V pid s m w (s'.pfree a) := by
  obtain ⟨l, hfreed, hmem⟩ := h
  refine ⟨l ++ [a], hfreed.pfree (hV.inUse hr) (by rwa [hmem]), fun b => ?_⟩
  rw [List.mem_append, List.mem_singleton, hmem, hiff]

/-- No more page has been given back. -/
theorem Freeing.congr {v m w : ℕ} (h : Freeing V pid s l1 v s')
    (hiff : ∀ b, Before V pid m w b ↔ Before V pid l1 v b) : Freeing V pid s m w s' := by
  obtain ⟨l, hfreed, hmem⟩ := h
  exact ⟨l, hfreed, fun b => by rw [hmem, hiff]⟩

theorem not_before_table {v k : ℕ} (hr : V.role a = some (.table pid k)) (hk : l1 ≤ k) :
    ¬ Before V pid l1 v a := by
  rintro (⟨j, hj, hr'⟩ | ⟨x, -, hr', -⟩)
  · obtain ⟨-, rfl⟩ := Role.table.inj (Option.some.inj (hr.symm.trans hr'))
    omega
  · cases hr.symm.trans hr'

theorem not_before_data {v x : ℕ} (hr : V.role a = some (.data pid x)) (hx : v ≤ x) :
    ¬ Before V pid l1 v a := by
  rintro (⟨j, -, hr'⟩ | ⟨y, hy, hr', -⟩)
  · cases hr.symm.trans hr'
  · obtain ⟨-, rfl⟩ := Role.data.inj (Option.some.inj (hr.symm.trans hr'))
    omega

theorem before_mono {v m w : ℕ} (hl : l1 ≤ m) (hv : v ≤ w) (h : Before V pid l1 v a) :
    Before V pid m w a := by
  rcases h with ⟨k, hk, hr⟩ | ⟨x, hx, hr, hne⟩
  · exact Or.inl ⟨k, hk.trans_le hl, hr⟩
  · exact Or.inr ⟨x, hx.trans_le hv, hr, hne⟩

/-- One more table. -/
theorem before_succ_table {v : ℕ} :
    Before V pid (l1 + 1) v a ↔ Before V pid l1 v a ∨ V.role a = some (.table pid l1) := by
  unfold Before
  simp only [Nat.lt_succ_iff_lt_or_eq, or_and_right, exists_or, exists_eq_left]
  exact or_right_comm

/-- One more page. -/
theorem before_succ_data {v : ℕ} :
    Before V pid l1 (v + 1) a ↔
      Before V pid l1 v a ∨ V.role a = some (.data pid v) ∧ a ≠ v * PAGE_SIZE := by
  unfold Before
  simp only [Nat.lt_succ_iff_lt_or_eq, or_and_right, exists_or, exists_eq_left, or_assoc]

/-- The address that an entry is for. -/
theorem va_eq (hl2 : l2 < 1024) : (l1 <<< 22) ||| (l2 <<< 12) = (l1 * 1024 + l2) * PAGE_SIZE := by
  have hlt : l2 <<< 12 < 2 ^ 22 := by
    rw [Nat.shiftLeft_eq]
    omega
  rw [shiftLeft_or l1 hlt, Nat.shiftLeft_eq]
  unfold PAGE_SIZE
  omega

/-- **One round of the inner loop.** -/
theorem Freeing.freeLeaf (hV : Owns s V) (ha : V.role a = some (.table pid l1)) (hl2 : l2 < 1024)
    (h : Freeing V pid s l1 (l1 * 1024 + l2) s') :
    Freeing V pid s l1 (l1 * 1024 + (l2 + 1)) (Earth.freeLeaf l1 a s' l2) := by
  set v := l1 * 1024 + l2 with hv
  have hsucc : l1 * 1024 + (l2 + 1) = v + 1 := by omega
  have hword : s'.mem (a + 4 * l2) = entryFor (V.lookup pid v) := by
    rw [h.word hV ha hl2 (not_before_table ha (Nat.le_refl _)), hV.leaf ha hl2]
  unfold Earth.freeLeaf
  rw [hword, hsucc]
  dsimp only
  cases hl : V.lookup pid v with
  | none =>
    rw [if_pos (show entryFor none &&& PTE_V = 0 by decide)]
    refine h.congr fun b => ?_
    rw [before_succ_data, or_iff_left]
    rintro ⟨hr, -⟩
    cases (hV.data hr).symm.trans hl
  | some pa =>
    have hframe := hV.target_isFrame hl
    have hvalid : ¬ entryFor (some pa) &&& PTE_V = 0 := leaf_valid hframe
    have haddr : pteAddr (entryFor (some pa)) = pa := pteAddr_leaf hframe
    rw [if_neg hvalid, haddr, va_eq hl2]
    by_cases hself : pa = v * PAGE_SIZE
    · -- it is mapped at its own address
      rw [if_neg fun hc => hc.1 hself]
      refine h.congr fun b => ?_
      rw [before_succ_data, or_iff_left]
      rintro ⟨hr, hne⟩
      obtain rfl := Option.some.inj ((hV.data hr).symm.trans hl)
      exact hne hself
    · have hr : V.role pa = some (.data pid v) := by
        obtain ⟨-, ⟨heq, -⟩ | hr⟩ := hV.target hl
        · exact absurd heq hself
        · exact hr
      have hpage := hV.isPage hr
      rw [if_pos ⟨hself, hpage.base_le, hpage.lt_end⟩]
      refine h.pfree hV hr (not_before_data hr (Nat.le_refl _)) fun b => ?_
      rw [before_succ_data]
      refine or_congr_right ⟨fun hb => ?_, ?_⟩
      · exact Option.some.inj ((hV.data hb.1).symm.trans hl)
      · rintro rfl
        exact ⟨hr, hself⟩

/-- **One round of the outer loop.** -/
theorem Freeing.freeTable (hV : Owns s V) (hb : s.base pid ≠ 0) (hl1 : l1 < 1024)
    (h : Freeing V pid s l1 (l1 * 1024) s') :
    Freeing V pid s (l1 + 1) ((l1 + 1) * 1024) (Earth.freeTable (s.base pid) s' l1) := by
  have hroot := (hV.base hb).2
  have hnot : ¬ Before V pid l1 (l1 * 1024) (s.base pid) := by
    rintro (⟨k, -, hr⟩ | ⟨x, -, hr, -⟩)
    · cases hroot.symm.trans hr
    · cases hroot.symm.trans hr
  have hentry := h.word hV hroot hl1 hnot
  unfold Earth.freeTable
  rw [hentry]
  dsimp only
  rcases hV.entry hb hl1 with hz | ⟨a, ha⟩
  · -- there is no table, and there are no pages
    rw [hz, if_pos (show 0 &&& PTE_V = 0 by decide)]
    refine h.congr fun b => ?_
    constructor
    · rintro (⟨k, hk, hr⟩ | ⟨x, hx, hr, hne⟩)
      · refine Or.inl ⟨k, ?_, hr⟩
        have hkl : k ≠ l1 := by
          rintro rfl
          rw [(hV.table hr).2.2] at hz
          exact nextLevel_ne_zero (hV.isPage hr).isFrame hz
        omega
      · refine Or.inr ⟨x, ?_, hr, hne⟩
        by_contra hge
        have hmiss := hV.missing hb hz (show x - l1 * 1024 < 1024 by omega)
        rw [show l1 * 1024 + (x - l1 * 1024) = x by omega, hV.data hr] at hmiss
        cases hmiss
    · exact before_mono (Nat.le_succ _) (Nat.mul_le_mul_right _ (Nat.le_succ _))
  · have hframe := (hV.isPage ha).isFrame
    have hvalid : ¬ nextLevel a &&& PTE_V = 0 := nextLevel_valid hframe
    rw [(hV.table ha).2.2, if_neg hvalid, pteAddr_nextLevel hframe]
    have hinner : Freeing V pid s l1 (l1 * 1024 + 1024)
        ((List.range 1024).foldl (Earth.freeLeaf l1 a) s') := by
      refine foldl_range (P := fun k t => Freeing V pid s l1 (l1 * 1024 + k) t) 1024 ?_
        fun k hk t ht => ht.freeLeaf hV ha hk
      rwa [Nat.add_zero]
    rw [show (l1 + 1) * 1024 = l1 * 1024 + 1024 by omega]
    refine hinner.pfree hV ha (not_before_table ha (Nat.le_refl _)) fun b => ?_
    rw [before_succ_table]
    refine or_congr_right ⟨fun hr => hV.table_unique hr ha, ?_⟩
    rintro rfl
    exact ha

end Loops

/-! ## The function -/

/-- What `page_table_free` has done. -/
structure Frees (pid : ℤ) (s : Vm al) (V : View) (s' : Vm al) (l : List ℕ) : Prop where
  owns : Owns s' (V.release pid)
  calls : s'.calls = s.calls ++ l.map .pfree
  nodup : l.Nodup
  mem : ∀ a, a ∈ l ↔ Released V pid a
  inUse : ∀ a, a ∈ al.inUse s'.heap ↔ a ∈ al.inUse s.heap ∧ a ∉ l

/-- What is given back belongs to the process. -/
theorem Released.belongs (h : Released V pid a) : Belongs V pid a := by
  obtain ⟨r, hr, ho, -⟩ := h
  exact ⟨r, hr, ho⟩

/-- Everything that is given back but the root comes in one of the loops. -/
theorem Owns.released_iff (h : Owns s V) :
    Released V pid a ↔ Before V pid 1024 (1024 * 1024) a ∨ V.role a = some (.root pid) := by
  constructor
  · rintro ⟨r, hr, ho, hne⟩
    cases r with
    | root q =>
      obtain rfl := Option.some.inj ho
      exact Or.inr hr
    | table q k =>
      obtain rfl := Option.some.inj ho
      exact Or.inl (Or.inl ⟨k, (h.table hr).1, hr⟩)
    | data q v =>
      obtain rfl := Option.some.inj ho
      exact Or.inl (Or.inr ⟨v, (h.target (h.data hr)).1, hr, hne v rfl⟩)
    | held => cases ho
  · rintro ((⟨k, -, hr⟩ | ⟨v, -, hr, hne⟩) | hr)
    · exact ⟨_, hr, rfl, by simp⟩
    · refine ⟨_, hr, rfl, fun x hx => ?_⟩
      obtain ⟨-, rfl⟩ := Role.data.inj hx
      exact hne
    · exact ⟨_, hr, rfl, by simp⟩

/-- A page that keeps its role has not been given back. -/
theorem Freed.owns {l : List ℕ} (hV : Owns s V) (h : Freed s s' l)
    (hmem : ∀ a, a ∈ l ↔ Released V pid a) :
    Owns { s' with base := Function.update s'.base pid 0 } (V.release pid) := by
  have hkeeps {b : ℕ} {r : Role} (hr : (V.release pid).role b = some r) :
      b ∈ al.inUse s.heap ∧ b ∉ l := by
    obtain ⟨hr, ho⟩ := View.role_of_release hr
    refine ⟨hV.inUse hr, fun hb => ?_⟩
    obtain ⟨r', hr', ho'⟩ := ((hmem b).mp hb).belongs
    obtain rfl := Option.some.inj (hr.symm.trans hr')
    exact ho ho'
  refine (hV.release pid).frame ?_ (fun w r hr => ?_) (fun b r hr => ?_)
  · rw [h.base]
  · exact h.words w (hkeeps hr).1 (hkeeps hr).2
  · exact (h.inUse b).mpr (hkeeps hr)

/-- **`page_table_free`.**  It returns for every process number in range, and gives back each page
that is to be given back, once. -/
theorem Owns.pageTableFree (h : Owns s V) :
    Ends (Earth.pageTableFree s pid) (fun s' => PidOk pid ∧ ∃ l, Frees pid s V s' l)
      (fun _ => ¬ PidOk pid) := by
  unfold Earth.pageTableFree
  refine ends_ensure (fun hp => hp) fun hpid => ?_
  dsimp only
  split_ifs with hb
  · -- there is nothing to give back
    have hmem : ∀ a, a ∈ [] ↔ Released V pid a := by
      intro a
      refine iff_of_false List.not_mem_nil fun hr => ?_
      exact h.base_of_belongs hr.belongs hb
    have howns := (Freed.refl s).owns h hmem
    have hsame : Function.update s.base pid 0 = s.base := by
      rw [← hb]
      exact Function.update_eq_self pid s.base
    rw [hsame] at howns
    exact ends_pure ⟨hpid, [], howns, by simp, List.nodup_nil, hmem, by simp⟩
  · have hloops : Freeing V pid s 1024 (1024 * 1024)
        ((List.range 1024).foldl (Earth.freeTable (s.base pid)) s) := by
      refine foldl_range (P := fun k t => Freeing V pid s k (k * 1024) t) 1024 ?_
        fun k hk t ht => ht.freeTable h hb hk
      exact ⟨[], Freed.refl s, fun a => iff_of_false List.not_mem_nil (by simp [Before])⟩
    obtain ⟨l, hfreed, hbefore⟩ := hloops
    have hroot := (h.base hb).2
    have hnot : s.base pid ∉ l := by
      rw [hbefore]
      rintro (⟨k, -, hr⟩ | ⟨x, -, hr, -⟩)
      · cases hroot.symm.trans hr
      · cases hroot.symm.trans hr
    have hall := hfreed.pfree (h.inUse hroot) hnot
    have hmem : ∀ a, a ∈ l ++ [s.base pid] ↔ Released V pid a := by
      intro a
      rw [List.mem_append, List.mem_singleton, hbefore, h.released_iff]
      refine or_congr_right ⟨?_, fun hr => (h.root hr).symm⟩
      rintro rfl
      exact hroot
    exact ends_pure ⟨hpid, l ++ [s.base pid], hall.owns h hmem, hall.calls, hall.nodup, hmem,
      hall.inUse⟩

end Earth
end EgosNet
