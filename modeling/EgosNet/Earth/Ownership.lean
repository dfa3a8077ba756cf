import EgosNet.Earth.PageTable

/-!
# Who owns a page

The code writes nothing down about what a page is used for.  This file does: a `View` gives every
page a role --- the root of a process, a second-level table for one entry of it, a page of a
process, or a page that has been handed out and is waiting to be mapped --- and every process its
address space, a partial map from virtual pages to physical ones.

`Owns s V` is the invariant that ties the view to memory.  As a page has at most one role, the
tables of all the processes and their pages are separate from each other; and the entries of the
tables say of the address spaces what the view says.

The four ways in which `page_table_map` changes memory keep the invariant, each with its change of
the view: a page comes from the allocator (`Owns.pmalloc`), it becomes a root (`Owns.newRoot`) or a
second-level table (`Owns.newTable`), and an entry is written (`Owns.newLeaf`).  A page that the
allocator hands out to somebody else waits (`Owns.newHeld`).
-/

namespace EgosNet
namespace Earth

open Foundation

variable {al : Allocator}

/-! ## Addresses and entries -/

theorem LEAF_FLAG_eq : LEAF_FLAG = 0xDF := by decide

/-- A page address that an entry can hold. -/
structure IsFrame (a : ℕ) : Prop where
  aligned : PAGE_SIZE ∣ a
  lt : a < 2 ^ 32

theorem IsPage.isFrame {a : ℕ} (h : IsPage a) : IsFrame a :=
  ⟨h.aligned, h.lt_end.trans (by decide)⟩

theorem IsPage.ne_zero {a : ℕ} (h : IsPage a) : a ≠ 0 := by
  have hle := h.base_le
  unfold APPS_PAGES_BASE at hle
  omega

/-- A word of a page is in that page. -/
theorem pageOf_word {a i : ℕ} (ha : PAGE_SIZE ∣ a) (hi : i < 1024) : pageOf (a + 4 * i) = a := by
  obtain ⟨k, rfl⟩ := ha
  unfold pageOf PAGE_SIZE
  omega

/-- A word is in one place only. -/
theorem word_inj {a b i j : ℕ} (ha : PAGE_SIZE ∣ a) (hb : PAGE_SIZE ∣ b) (hi : i < 1024)
    (hj : j < 1024) (h : a + 4 * i = b + 4 * j) : a = b ∧ i = j := by
  have hab : a = b := by rw [← pageOf_word ha hi, h, pageOf_word hb hj]
  exact ⟨hab, by omega⟩

/-- What `(pte << 2) & ~0xfff` computes. -/
theorem pteAddr_eq {x : ℕ} (hx : x < 2 ^ 30) : pteAddr x = x / 1024 * 4096 := by
  have hshift : x <<< 2 = x * 4 := Nat.shiftLeft_eq x 2
  have hlt : x * 4 < 2 ^ 32 := by omega
  have hmask := and_mask (k := 12) (w := 32) hlt (by decide)
  unfold pteAddr
  rw [hshift, Nat.mod_eq_of_lt hlt]
  rw [show (0xfffff000 : ℕ) = 2 ^ 32 - 2 ^ 12 by norm_num, hmask]
  omega

theorem IsFrame.exists_eq {a : ℕ} (h : IsFrame a) : ∃ k, a = k * 4096 ∧ k < 2 ^ 20 := by
  obtain ⟨⟨k, rfl⟩, hlt⟩ := h
  unfold PAGE_SIZE at hlt ⊢
  exact ⟨k, Nat.mul_comm _ _, by omega⟩

theorem nextLevel_eq {a : ℕ} (h : IsFrame a) : nextLevel a = a / 4096 * 1024 + 1 := by
  obtain ⟨k, rfl, hk⟩ := h.exists_eq
  have hshift : (k * 4096) >>> 12 = k := by rw [Nat.shiftRight_eq_div_pow]; omega
  have hlt : k <<< 10 < 2 ^ 32 := by rw [Nat.shiftLeft_eq]; omega
  unfold nextLevel FLAG_NEXT_LEVEL
  rw [hshift, Nat.mod_eq_of_lt hlt, shiftLeft_or k (by norm_num)]
  omega

theorem leaf_eq {a : ℕ} (h : IsFrame a) : leaf a LEAF_FLAG = a / 4096 * 1024 + 0xDF := by
  obtain ⟨k, rfl, hk⟩ := h.exists_eq
  have hshift : (k * 4096) >>> 2 = k * 2 ^ 10 := by rw [Nat.shiftRight_eq_div_pow]; omega
  unfold leaf
  rw [hshift, LEAF_FLAG_eq, mul_or k (by norm_num)]
  omega

theorem nextLevel_ne_zero {a : ℕ} (h : IsFrame a) : nextLevel a ≠ 0 := by
  rw [nextLevel_eq h]
  omega

theorem leaf_ne_zero {a : ℕ} (h : IsFrame a) : leaf a LEAF_FLAG ≠ 0 := by
  rw [leaf_eq h]
  omega

/-- An entry that was stored is valid. -/
theorem nextLevel_valid {a : ℕ} (h : IsFrame a) : nextLevel a &&& 1 ≠ 0 := by
  rw [nextLevel_eq h, Nat.and_one_is_mod]
  omega

theorem leaf_valid {a : ℕ} (h : IsFrame a) : leaf a LEAF_FLAG &&& 1 ≠ 0 := by
  rw [leaf_eq h, Nat.and_one_is_mod]
  omega

/-- **An entry decodes to what was stored in it.** -/
theorem pteAddr_nextLevel {a : ℕ} (h : IsFrame a) : pteAddr (nextLevel a) = a := by
  obtain ⟨k, rfl, hk⟩ := h.exists_eq
  rw [nextLevel_eq h, pteAddr_eq (by omega)]
  omega

theorem pteAddr_leaf {a : ℕ} (h : IsFrame a) : pteAddr (leaf a LEAF_FLAG) = a := by
  obtain ⟨k, rfl, hk⟩ := h.exists_eq
  rw [leaf_eq h, pteAddr_eq (by omega)]
  omega

/-! ## Roles and address spaces -/

/-- What a page is used for. -/
inductive Role where
  | root (pid : ℤ)
  /-- The second-level table for entry `l1` of the root. -/
  | table (pid : ℤ) (l1 : ℕ)
  /-- What virtual page `v` of the process is mapped to. -/
  | data (pid : ℤ) (v : ℕ)
  /-- Handed out, and not mapped yet. -/
  | held
  deriving DecidableEq

/-- An address space: the address of the page that a virtual page is mapped to. -/
abbrev Space := ℕ → Option ℕ

/-- The address spaces of the processes that have one. -/
abbrev Spaces := ℤ → Option Space

/-- The roles of the pages, and the address spaces. -/
structure View where
  role : ℕ → Option Role
  space : Spaces

/-- What a virtual page of a process is mapped to. -/
def View.lookup (V : View) (pid : ℤ) (v : ℕ) : Option ℕ := (V.space pid).bind fun M => M v

/-- A page gets a role. -/
def View.setRole (V : View) (a : ℕ) (r : Role) : View :=
  { V with role := Function.update V.role a (some r) }

/-- A process gets an address space. -/
def View.setSpace (V : View) (pid : ℤ) (M : Space) : View :=
  { V with space := Function.update V.space pid (some M) }

section Views

variable {V : View} {a b : ℕ} {r r' : Role} {pid q : ℤ} {M : Space}

@[simp] theorem View.setRole_lookup (v : ℕ) : (V.setRole a r).lookup pid v = V.lookup pid v := rfl

theorem View.setRole_self : (V.setRole a r).role a = some r := Function.update_self _ _ _

theorem View.setRole_of_ne (h : b ≠ a) : (V.setRole a r).role b = V.role b :=
  Function.update_of_ne h _ _

/-- A role is the new one, or one that there was before. -/
theorem View.role_of_setRole (h : (V.setRole a r).role b = some r') :
    b = a ∧ r' = r ∨ b ≠ a ∧ V.role b = some r' := by
  by_cases hb : b = a
  · rw [hb, View.setRole_self] at h
    exact Or.inl ⟨hb, (Option.some.inj h).symm⟩
  · rw [View.setRole_of_ne hb] at h
    exact Or.inr ⟨hb, h⟩

/-- A page that had no role before is not one of those that had. -/
theorem View.setRole_of_some (h : V.role a = none) (hb : V.role b = some r') :
    (V.setRole a r).role b = some r' := by
  have hne : b ≠ a := by
    rintro rfl
    rw [h] at hb
    cases hb
  rwa [View.setRole_of_ne hne]

/-- What is true of all pages with a role stays so. -/
theorem View.forall_setRole {P : ℕ → Prop} (hnew : P a) (hold : ∀ b r, V.role b = some r → P b)
    (h : (V.setRole a r).role b = some r') : P b := by
  rcases View.role_of_setRole h with ⟨rfl, -⟩ | ⟨-, h⟩
  · exact hnew
  · exact hold b r' h

theorem View.setSpace_lookup_self (v : ℕ) : (V.setSpace pid M).lookup pid v = M v := by
  show (Function.update V.space pid (some M) pid).bind (fun M => M v) = M v
  rw [Function.update_self]
  rfl

theorem View.setSpace_lookup_of_ne (h : q ≠ pid) (v : ℕ) :
    (V.setSpace pid M).lookup q v = V.lookup q v := by
  show (Function.update V.space pid (some M) q).bind (fun M => M v) = V.lookup q v
  rw [Function.update_of_ne h]
  rfl

end Views

/-- The virtual page is in the region. -/
def InRegion (r : ℕ × ℕ) (v : ℕ) : Prop :=
  r.1 ≤ v * PAGE_SIZE ∧ v * PAGE_SIZE < r.1 + r.2 * PAGE_SIZE

instance (r : ℕ × ℕ) (v : ℕ) : Decidable (InRegion r v) := inferInstanceAs (Decidable (_ ∧ _))

/-- The virtual page is in a region that is mapped to itself. -/
def Identity (pid : ℤ) (v : ℕ) : Prop := ∃ r ∈ identityRegions pid, InRegion r v

instance (pid : ℤ) (v : ℕ) : Decidable (Identity pid v) :=
  inferInstanceAs (Decidable (∃ r ∈ identityRegions pid, InRegion r v))

/-- The entry of a second-level table for a page that is, or is not, mapped. -/
def entryFor : Option ℕ → ℕ
  | none => 0
  | some pa => leaf pa LEAF_FLAG

/-- **The view is right.** -/
structure Owns (s : Vm al) (V : View) : Prop where
  inUse : ∀ {a r}, V.role a = some r → a ∈ al.inUse s.heap
  isPage : ∀ {a r}, V.role a = some r → IsPage a
  base : ∀ {pid}, s.base pid ≠ 0 → PidOk pid ∧ V.role (s.base pid) = some (.root pid)
  root : ∀ {a pid}, V.role a = some (.root pid) → s.base pid = a
  mapped : ∀ pid, V.space pid = none ↔ s.base pid = 0
  /-- An entry of a root is empty or for a second-level table. -/
  entry : ∀ {pid l1}, s.base pid ≠ 0 → l1 < 1024 →
    s.mem (s.base pid + 4 * l1) = 0 ∨ ∃ a, V.role a = some (.table pid l1)
  table : ∀ {a pid l1}, V.role a = some (.table pid l1) →
    l1 < 1024 ∧ s.base pid ≠ 0 ∧ s.mem (s.base pid + 4 * l1) = nextLevel a
  /-- An entry of a second-level table says what the page is mapped to. -/
  leaf : ∀ {a pid l1 l2}, V.role a = some (.table pid l1) → l2 < 1024 →
    s.mem (a + 4 * l2) = entryFor (V.lookup pid (l1 * 1024 + l2))
  missing : ∀ {pid l1 l2}, s.base pid ≠ 0 → s.mem (s.base pid + 4 * l1) = 0 → l2 < 1024 →
    V.lookup pid (l1 * 1024 + l2) = none
  /-- A page is mapped to itself or to one that the process owns. -/
  target : ∀ {pid v pa}, V.lookup pid v = some pa →
    v < 2 ^ 20 ∧ (pa = v * PAGE_SIZE ∧ Identity pid v ∨ V.role pa = some (.data pid v))
  data : ∀ {a pid v}, V.role a = some (.data pid v) → V.lookup pid v = some a

section Owns

variable {s : Vm al} {V : View} {pid : ℤ} {a pa l1 l2 v : ℕ}

theorem Owns.base_isPage (h : Owns s V) (hb : s.base pid ≠ 0) : IsPage (s.base pid) :=
  h.isPage (h.base hb).2

theorem Owns.target_isFrame (h : Owns s V) (ht : V.lookup pid v = some pa) : IsFrame pa := by
  obtain ⟨hv, ⟨rfl, -⟩ | hrole⟩ := h.target ht
  · refine ⟨Dvd.intro_left v rfl, ?_⟩
    unfold PAGE_SIZE
    omega
  · exact (h.isPage hrole).isFrame

/-- A table is the one that the entry of the root points to. -/
theorem Owns.table_unique (h : Owns s V) {b : ℕ} (ha : V.role a = some (.table pid l1))
    (hb : V.role b = some (.table pid l1)) : a = b := by
  have heq := (h.table ha).2.2.symm.trans (h.table hb).2.2
  rw [← pteAddr_nextLevel (h.isPage ha).isFrame, heq, pteAddr_nextLevel (h.isPage hb).isFrame]

theorem lookup_of_unmapped (hV : V.space pid = none) (v : ℕ) : V.lookup pid v = none := by
  rw [View.lookup, hV]
  rfl

/-- An entry is zero exactly if the page is not mapped. -/
theorem Owns.leaf_eq_zero (h : Owns s V) (ha : V.role a = some (.table pid l1)) (hl2 : l2 < 1024) :
    s.mem (a + 4 * l2) = 0 ↔ V.lookup pid (l1 * 1024 + l2) = none := by
  rw [h.leaf ha hl2]
  cases hv : V.lookup pid (l1 * 1024 + l2) with
  | none => simp [entryFor]
  | some pa => simpa [entryFor] using leaf_ne_zero (h.target_isFrame hv)

/-- An entry that no root has is for no page. -/
theorem Owns.lookup_beyond (h : Owns s V) (hl1 : ¬ l1 < 1024) :
    V.lookup pid (l1 * 1024 + l2) = none := by
  cases hv : V.lookup pid (l1 * 1024 + l2) with
  | none => rfl
  | some pa =>
    have hlt := (h.target hv).1
    omega

/-- Only the words of the pages that have a role matter. -/
theorem Owns.frame {s' : Vm al} (h : Owns s V) (hb : s'.base = s.base)
    (hm : ∀ w r, V.role (pageOf w) = some r → s'.mem w = s.mem w)
    (hu : ∀ a r, V.role a = some r → a ∈ al.inUse s'.heap) : Owns s' V := by
  have hroot {pid : ℤ} {l1 : ℕ} (hpid : s.base pid ≠ 0) (hl1 : l1 < 1024) :
      s'.mem (s.base pid + 4 * l1) = s.mem (s.base pid + 4 * l1) := by
    refine hm _ (.root pid) ?_
    rw [pageOf_word (h.base_isPage hpid).aligned hl1]
    exact (h.base hpid).2
  refine ⟨fun hr => hu _ _ hr, h.isPage, ?_, ?_, ?_, ?_, ?_, ?_, ?_, h.target, h.data⟩
  · rw [hb]
    exact h.base
  · rw [hb]
    exact h.root
  · rw [hb]
    exact h.mapped
  · rw [hb]
    intro pid l1 hpid hl1
    rw [hroot hpid hl1]
    exact h.entry hpid hl1
  · rw [hb]
    intro a pid l1 hr
    obtain ⟨hl1, hpid, hmem⟩ := h.table hr
    exact ⟨hl1, hpid, (hroot hpid hl1).trans hmem⟩
  · intro a pid l1 l2 hr hl2
    have hword : s'.mem (a + 4 * l2) = s.mem (a + 4 * l2) := by
      refine hm _ (.table pid l1) ?_
      rwa [pageOf_word (h.isPage hr).aligned hl2]
    rw [hword]
    exact h.leaf hr hl2
  · rw [hb]
    intro pid l1 l2 hpid hzero hl2
    by_cases hl1 : l1 < 1024
    · rw [hroot hpid hl1] at hzero
      exact h.missing hpid hzero hl2
    · exact h.lookup_beyond hl1

/-! ## A page from the allocator -/

/-- What `pmalloc` returns: a page without a role. -/
structure Fresh (s : Vm al) (V : View) (s' : Vm al) (a : ℕ) : Prop where
  owns : Owns s' V
  unused : a ∉ al.inUse s.heap
  role : V.role a = none
  isPage : IsPage a
  base : s'.base = s.base
  inUse : al.inUse s'.heap = insert a (al.inUse s.heap)
  calls : s'.calls = s.calls ++ [.pmalloc a]

theorem Owns.pmalloc (h : Owns s V) (c : Bool) :
    Ends (s.pmalloc c)
      (fun r => Fresh s V r.1 r.2 ∧ (c = true → ∀ i < 1024, r.1.mem (r.2 + 4 * i) = 0))
      (fun e => e = .noPage) := by
  unfold Vm.pmalloc
  cases hp : al.pmalloc s.heap s.mem c with
  | none => exact ends_error rfl
  | some r =>
    obtain ⟨h', m', a⟩ := r
    have hfresh := al.pmalloc_fresh hp
    have hin := al.pmalloc_inUse hp
    refine ends_ok ⟨⟨h.frame rfl (fun w r hr => ?_) (fun b r hr => ?_), hfresh, ?_,
      al.pmalloc_page hp, rfl, hin, rfl⟩, ?_⟩
    · exact al.pmalloc_frame hp w (h.inUse hr)
    · show b ∈ al.inUse h'
      rw [hin]
      exact Set.mem_insert_of_mem _ (h.inUse hr)
    · by_contra hne
      obtain ⟨r, hr⟩ := Option.ne_none_iff_exists'.mp hne
      exact hfresh (h.inUse hr)
    · rintro rfl
      exact al.pmalloc_zero hp

/-! ## What becomes of it -/

/-- **A page that waits to be mapped.** -/
theorem Owns.newHeld (h : Owns s V) (hrole : V.role a = none) (ha : IsPage a)
    (hin : a ∈ al.inUse s.heap) : Owns s (V.setRole a .held) := by
  -- what has another role than this had it before
  have hold {b : ℕ} {r : Role} (hr : (V.setRole a .held).role b = some r) (hne : r ≠ .held) :
      V.role b = some r := by
    rcases View.role_of_setRole hr with ⟨-, heq⟩ | ⟨-, hr⟩
    · exact absurd heq hne
    · exact hr
  constructor
  case inUse => exact View.forall_setRole hin fun _ _ hr => h.inUse hr
  case isPage => exact View.forall_setRole ha fun _ _ hr => h.isPage hr
  case base => exact fun hq => ⟨(h.base hq).1, View.setRole_of_some hrole (h.base hq).2⟩
  case root => exact fun hr => h.root (hold hr (by simp))
  case mapped => exact h.mapped
  case entry =>
    intro q l1 hq hl1
    rcases h.entry hq hl1 with hz | ⟨b, hb⟩
    · exact Or.inl hz
    · exact Or.inr ⟨b, View.setRole_of_some hrole hb⟩
  case table => exact fun hr => h.table (hold hr (by simp))
  case leaf => exact fun hr hl2 => h.leaf (hold hr (by simp)) hl2
  case missing => exact h.missing
  case target =>
    intro q v x hv
    obtain ⟨hlt, hid | hr⟩ := h.target hv
    · exact ⟨hlt, Or.inl hid⟩
    · exact ⟨hlt, Or.inr (View.setRole_of_some hrole hr)⟩
  case data => exact fun hr => h.data (hold hr (by simp))

/-- **A root.**  The process gets an empty address space. -/
theorem Owns.newRoot (h : Owns s V) (hpid : PidOk pid) (hb : s.base pid = 0)
    (hrole : V.role a = none) (ha : IsPage a) (hin : a ∈ al.inUse s.heap)
    (hzero : ∀ i < 1024, s.mem (a + 4 * i) = 0) :
    Owns { s with base := Function.update s.base pid a }
      ((V.setRole a (.root pid)).setSpace pid fun _ => none) := by
  have hself : Function.update s.base pid a pid = a := Function.update_self _ _ _
  have hother {q : ℤ} (hq : q ≠ pid) : Function.update s.base pid a q = s.base q :=
    Function.update_of_ne hq _ _
  -- a process with a table is another one
  have hne {q : ℤ} (hq : s.base q ≠ 0) : q ≠ pid := by
    rintro rfl
    exact hq hb
  have hlookup {q : ℤ} {v x : ℕ}
      (hv : ((V.setRole a (.root pid)).setSpace pid fun _ => none).lookup q v = some x) :
      q ≠ pid ∧ V.lookup q v = some x := by
    by_cases hq : q = pid
    · rw [hq, View.setSpace_lookup_self] at hv
      cases hv
    · rw [View.setSpace_lookup_of_ne hq] at hv
      exact ⟨hq, hv⟩
  constructor
  case inUse => exact View.forall_setRole hin fun _ _ hr => h.inUse hr
  case isPage => exact View.forall_setRole ha fun _ _ hr => h.isPage hr
  case base =>
    intro q hq
    by_cases hqp : q = pid
    · rw [hqp]
      show PidOk pid ∧ (V.setRole a (.root pid)).role (Function.update s.base pid a pid) = _
      rw [hself]
      exact ⟨hpid, View.setRole_self⟩
    · change Function.update s.base pid a q ≠ 0 at hq
      show PidOk q ∧ (V.setRole a (.root pid)).role (Function.update s.base pid a q) = _
      rw [hother hqp] at hq ⊢
      exact ⟨(h.base hq).1, View.setRole_of_some hrole (h.base hq).2⟩
  case root =>
    intro b q hr
    show Function.update s.base pid a q = b
    rcases View.role_of_setRole hr with ⟨rfl, heq⟩ | ⟨-, hr⟩
    · obtain rfl := Role.root.inj heq
      exact hself
    · have hbq := h.root hr
      rw [hother (hne (by rw [hbq]; exact (h.isPage hr).ne_zero)), hbq]
  case mapped =>
    intro q
    by_cases hqp : q = pid
    · rw [hqp]
      show Function.update V.space pid (some _) pid = none ↔ Function.update s.base pid a pid = 0
      rw [hself, Function.update_self]
      exact iff_of_false (by simp) ha.ne_zero
    · show Function.update V.space pid (some _) q = none ↔ Function.update s.base pid a q = 0
      rw [hother hqp, Function.update_of_ne hqp]
      exact h.mapped q
  case entry =>
    intro q l1 hq hl1
    by_cases hqp : q = pid
    · left
      rw [hqp]
      show s.mem (Function.update s.base pid a pid + 4 * l1) = 0
      rw [hself]
      exact hzero l1 hl1
    · change Function.update s.base pid a q ≠ 0 at hq
      show s.mem (Function.update s.base pid a q + 4 * l1) = 0 ∨ _
      rw [hother hqp] at hq ⊢
      rcases h.entry hq hl1 with hz | ⟨b, hb⟩
      · exact Or.inl hz
      · exact Or.inr ⟨b, View.setRole_of_some hrole hb⟩
  case table =>
    intro b q l1 hr
    rcases View.role_of_setRole hr with ⟨-, heq⟩ | ⟨-, hr⟩
    · cases heq
    · obtain ⟨hl1, hq, hmem⟩ := h.table hr
      show l1 < 1024 ∧ Function.update s.base pid a q ≠ 0 ∧
        s.mem (Function.update s.base pid a q + 4 * l1) = _
      rw [hother (hne hq)]
      exact ⟨hl1, hq, hmem⟩
  case leaf =>
    intro b q l1 l2 hr hl2
    rcases View.role_of_setRole hr with ⟨-, heq⟩ | ⟨-, hr⟩
    · cases heq
    · rw [View.setSpace_lookup_of_ne (hne (h.table hr).2.1)]
      exact h.leaf hr hl2
  case missing =>
    intro q l1 l2 hq hmem hl2
    by_cases hqp : q = pid
    · rw [hqp, View.setSpace_lookup_self]
    · change Function.update s.base pid a q ≠ 0 at hq
      change s.mem (Function.update s.base pid a q + 4 * l1) = 0 at hmem
      rw [hother hqp] at hq hmem
      rw [View.setSpace_lookup_of_ne hqp]
      exact h.missing hq hmem hl2
  case target =>
    intro q v x hv
    obtain ⟨-, hv⟩ := hlookup hv
    obtain ⟨hlt, hid | hr⟩ := h.target hv
    · exact ⟨hlt, Or.inl hid⟩
    · exact ⟨hlt, Or.inr (View.setRole_of_some hrole hr)⟩
  case data =>
    intro b q v hr
    rcases View.role_of_setRole hr with ⟨-, heq⟩ | ⟨-, hr⟩
    · cases heq
    · have hv := h.data hr
      have hqp : q ≠ pid := by
        rintro rfl
        rw [lookup_of_unmapped ((h.mapped q).mpr hb)] at hv
        cases hv
      rw [View.setSpace_lookup_of_ne hqp]
      exact hv

/-- **A second-level table.**  The address space does not change. -/
theorem Owns.newTable (h : Owns s V) (hb : s.base pid ≠ 0) (hl1 : l1 < 1024)
    (hmem : s.mem (s.base pid + 4 * l1) = 0) (hrole : V.role a = none) (ha : IsPage a)
    (hin : a ∈ al.inUse s.heap) (hzero : ∀ i < 1024, s.mem (a + 4 * i) = 0) :
    Owns (s.write (s.base pid + 4 * l1) (nextLevel a)) (V.setRole a (.table pid l1)) := by
  have hroot := h.base_isPage hb
  -- the word that is written, and all the others
  have hself : (s.write (s.base pid + 4 * l1) (nextLevel a)).mem (s.base pid + 4 * l1) =
      nextLevel a := Function.update_self _ _ _
  have hword {b i : ℕ} (hb' : IsPage b) (hi : i < 1024) (hne : ¬ (b = s.base pid ∧ i = l1)) :
      (s.write (s.base pid + 4 * l1) (nextLevel a)).mem (b + 4 * i) = s.mem (b + 4 * i) :=
    Function.update_of_ne (fun heq => hne (word_inj hb'.aligned hroot.aligned hi hl1 heq)) _ _
  have hpids {q : ℤ} (hq : s.base q = s.base pid) : q = pid := by
    have hbq : s.base q ≠ 0 := by rwa [hq]
    have hrq := (h.base hbq).2
    rw [hq, (h.base hb).2] at hrq
    exact (Role.root.inj (Option.some.inj hrq)).symm
  -- a table is no root
  have hnotRoot {b : ℕ} {q : ℤ} {k : ℕ} (hr : V.role b = some (.table q k)) : b ≠ s.base pid := by
    rintro rfl
    rw [(h.base hb).2] at hr
    cases hr
  have haRoot : a ≠ s.base pid := by
    rintro rfl
    rw [(h.base hb).2] at hrole
    cases hrole
  constructor
  case inUse => exact View.forall_setRole hin fun _ _ hr => h.inUse hr
  case isPage => exact View.forall_setRole ha fun _ _ hr => h.isPage hr
  case base =>
    intro q hq
    exact ⟨(h.base hq).1, View.setRole_of_some hrole (h.base hq).2⟩
  case root =>
    intro b q hr
    rcases View.role_of_setRole hr with ⟨-, heq⟩ | ⟨-, hr⟩
    · cases heq
    · exact h.root hr
  case mapped => exact h.mapped
  case entry =>
    intro q k hq hk
    by_cases hsame : s.base q = s.base pid ∧ k = l1
    · obtain ⟨hqp, rfl⟩ := hsame
      rw [hpids hqp]
      exact Or.inr ⟨a, View.setRole_self⟩
    · show (s.write _ _).mem (s.base q + 4 * k) = 0 ∨ _
      rw [hword (h.base_isPage hq) hk hsame]
      rcases h.entry hq hk with hz | ⟨b, hb⟩
      · exact Or.inl hz
      · exact Or.inr ⟨b, View.setRole_of_some hrole hb⟩
  case table =>
    intro b q k hr
    rcases View.role_of_setRole hr with ⟨rfl, heq⟩ | ⟨-, hr⟩
    · obtain ⟨rfl, rfl⟩ := Role.table.inj heq
      exact ⟨hl1, hb, hself⟩
    · obtain ⟨hk, hq, hm⟩ := h.table hr
      have hframe := (h.isPage hr).isFrame
      refine ⟨hk, hq, ?_⟩
      show (s.write _ _).mem (s.base q + 4 * k) = _
      rw [hword (h.base_isPage hq) hk, hm]
      -- the entry that is written was empty
      rintro ⟨hqp, rfl⟩
      rw [hqp, hmem] at hm
      exact nextLevel_ne_zero hframe hm.symm
  case leaf =>
    intro b q k i hr hi
    rcases View.role_of_setRole hr with ⟨rfl, heq⟩ | ⟨-, hr⟩
    · obtain ⟨rfl, rfl⟩ := Role.table.inj heq
      rw [hword ha hi fun hc => haRoot hc.1, hzero i hi, View.setRole_lookup,
        h.missing hb hmem hi]
      rfl
    · rw [hword (h.isPage hr) hi fun hc => hnotRoot hr hc.1, View.setRole_lookup]
      exact h.leaf hr hi
  case missing =>
    intro q k i hq hm hi
    by_cases hk : k < 1024
    · have hne : ¬ (s.base q = s.base pid ∧ k = l1) := by
        rintro ⟨hqp, rfl⟩
        change (s.write _ _).mem (s.base q + 4 * k) = 0 at hm
        rw [hqp, hself] at hm
        exact nextLevel_ne_zero ha.isFrame hm
      refine h.missing hq ?_ hi
      rw [← hword (h.base_isPage hq) hk hne]
      exact hm
    · exact h.lookup_beyond hk
  case target =>
    intro q v x hv
    obtain ⟨hlt, hid | hr⟩ := h.target hv
    · exact ⟨hlt, Or.inl hid⟩
    · exact ⟨hlt, Or.inr (View.setRole_of_some hrole hr)⟩
  case data =>
    intro b q v hr
    rcases View.role_of_setRole hr with ⟨-, heq⟩ | ⟨-, hr⟩
    · cases heq
    · exact h.data hr

/-- The roles after virtual page `v` of the process has been mapped to `pa`: they are as before, but
a page that was waiting has become a page of the process. -/
structure Takes (V : View) (R : ℕ → Option Role) (pid : ℤ) (v pa : ℕ) : Prop where
  keep : ∀ {b r}, V.role b = some r → r ≠ .held → R b = some r
  back : ∀ {b r}, R b = some r → V.role b = some r ∨
    b = pa ∧ r = .data pid v ∧ V.role b = some .held
  target : pa = v * PAGE_SIZE ∧ Identity pid v ∨ R pa = some (.data pid v)

/-- **An entry of a second-level table.** -/
theorem Owns.newLeaf {R : ℕ → Option Role} {M : Space} (h : Owns s V)
    (ha : V.role a = some (.table pid l1)) (hl2 : l2 < 1024) (hM : V.space pid = some M)
    (hv : v = l1 * 1024 + l2) (hfree : M v = none) (ht : Takes V R pid v pa) :
    Owns (s.write (a + 4 * l2) (Earth.leaf pa LEAF_FLAG))
      ⟨R, Function.update V.space pid (some (Function.update M v (some pa)))⟩ := by
  obtain ⟨hl1, hb, hentry⟩ := h.table ha
  have haPage := h.isPage ha
  have hself : (s.write (a + 4 * l2) (Earth.leaf pa LEAF_FLAG)).mem (a + 4 * l2) =
      Earth.leaf pa LEAF_FLAG := Function.update_self _ _ _
  have hword {b i : ℕ} (hb' : IsPage b) (hi : i < 1024) (hne : ¬ (b = a ∧ i = l2)) :
      (s.write (a + 4 * l2) (Earth.leaf pa LEAF_FLAG)).mem (b + 4 * i) = s.mem (b + 4 * i) :=
    Function.update_of_ne (fun heq => hne (word_inj hb'.aligned haPage.aligned hi hl2 heq)) _ _
  -- a root is no second-level table
  have hroot {q : ℤ} {i : ℕ} (hq : s.base q ≠ 0) (hi : i < 1024) :
      (s.write (a + 4 * l2) (Earth.leaf pa LEAF_FLAG)).mem (s.base q + 4 * i) =
        s.mem (s.base q + 4 * i) := by
    refine hword (h.base_isPage hq) hi ?_
    rintro ⟨rfl, -⟩
    rw [(h.base hq).2] at ha
    cases ha
  have hold : V.lookup pid v = none := by
    rw [View.lookup, hM]
    exact hfree
  let V' : View := ⟨R, Function.update V.space pid (some (Function.update M v (some pa)))⟩
  have hnew : V'.lookup pid v = some pa := by
    show (Function.update V.space pid _ pid).bind _ = _
    rw [Function.update_self]
    exact Function.update_self _ _ _
  have hsame {q : ℤ} {x : ℕ} (hne : ¬ (q = pid ∧ x = v)) : V'.lookup q x = V.lookup q x := by
    show (Function.update V.space pid _ q).bind _ = _
    by_cases hq : q = pid
    · rw [hq, Function.update_self, View.lookup, hM]
      exact Function.update_of_ne (fun hx => hne ⟨hq, hx⟩) _ _
    · rw [Function.update_of_ne hq]
      rfl
  constructor
  case inUse =>
    intro b r hr
    rcases ht.back hr with hr | ⟨-, -, hr⟩
    · exact h.inUse hr
    · exact h.inUse hr
  case isPage =>
    intro b r hr
    rcases ht.back hr with hr | ⟨-, -, hr⟩
    · exact h.isPage hr
    · exact h.isPage hr
  case base =>
    intro q hq
    exact ⟨(h.base hq).1, ht.keep (h.base hq).2 (by simp)⟩
  case root =>
    intro b q hr
    rcases ht.back hr with hr | ⟨-, heq, -⟩
    · exact h.root hr
    · cases heq
  case mapped =>
    intro q
    show Function.update V.space pid _ q = none ↔ s.base q = 0
    by_cases hq : q = pid
    · rw [hq, Function.update_self]
      exact iff_of_false (by simp) hb
    · rw [Function.update_of_ne hq]
      exact h.mapped q
  case entry =>
    intro q k hq hk
    show (s.write _ _).mem (s.base q + 4 * k) = 0 ∨ _
    rw [hroot hq hk]
    rcases h.entry hq hk with hz | ⟨b, hr⟩
    · exact Or.inl hz
    · exact Or.inr ⟨b, ht.keep hr (by simp)⟩
  case table =>
    intro b q k hr
    rcases ht.back hr with hr | ⟨-, heq, -⟩
    · obtain ⟨hk, hq, hm⟩ := h.table hr
      exact ⟨hk, hq, (hroot hq hk).trans hm⟩
    · cases heq
  case leaf =>
    intro b q k i hr hi
    rcases ht.back hr with hold' | ⟨-, heq, -⟩
    · by_cases hbi : b = a ∧ i = l2
      · obtain ⟨rfl, rfl⟩ := hbi
        obtain ⟨rfl, rfl⟩ := Role.table.inj (Option.some.inj (ha.symm.trans hold'))
        show _ = entryFor (V'.lookup pid _)
        rw [hself, ← hv, hnew]
        rfl
      · show _ = entryFor (V'.lookup q _)
        rw [hword (h.isPage hold') hi hbi, h.leaf hold' hi, hsame]
        -- another entry is for another page
        rintro ⟨rfl, hx⟩
        obtain ⟨rfl, rfl⟩ : k = l1 ∧ i = l2 := by omega
        exact hbi ⟨h.table_unique hold' ha, rfl⟩
    · cases heq
  case missing =>
    intro q k i hq hm hi
    by_cases hk : k < 1024
    · change (s.write _ _).mem (s.base q + 4 * k) = 0 at hm
      rw [hroot hq hk] at hm
      show V'.lookup q _ = none
      rw [hsame]
      · exact h.missing hq hm hi
      · rintro ⟨rfl, hx⟩
        obtain ⟨rfl, rfl⟩ : k = l1 ∧ i = l2 := by omega
        rw [hentry] at hm
        exact nextLevel_ne_zero haPage.isFrame hm
    · show V'.lookup q _ = none
      rw [hsame]
      · exact h.lookup_beyond hk
      · rintro ⟨-, hx⟩
        omega
  case target =>
    intro q x y hx
    change V'.lookup q x = some y at hx
    by_cases hqx : q = pid ∧ x = v
    · obtain ⟨rfl, rfl⟩ := hqx
      obtain rfl := Option.some.inj (hnew.symm.trans hx)
      exact ⟨by omega, ht.target⟩
    · rw [hsame hqx] at hx
      obtain ⟨hlt, hid | hr⟩ := h.target hx
      · exact ⟨hlt, Or.inl hid⟩
      · exact ⟨hlt, Or.inr (ht.keep hr (by simp))⟩
  case data =>
    intro b q x hr
    show V'.lookup q x = some b
    rcases ht.back hr with hr | ⟨rfl, heq, -⟩
    · have hx := h.data hr
      rw [hsame]
      · exact hx
      · rintro ⟨rfl, rfl⟩
        rw [hold] at hx
        cases hx
    · obtain ⟨rfl, rfl⟩ := Role.data.inj heq
      exact hnew

/-- A page that is mapped to itself takes nothing. -/
theorem takes_identity (hid : Identity pid v) : Takes V V.role pid v (v * PAGE_SIZE) :=
  ⟨fun hr _ => hr, fun hr => Or.inl hr, Or.inl ⟨rfl, hid⟩⟩

/-- A page that was waiting is taken. -/
theorem takes_held (hheld : V.role pa = some .held) :
    Takes V (V.setRole pa (.data pid v)).role pid v pa := by
  refine ⟨fun {b r} hr hne => ?_, fun {b r} hr => ?_, Or.inr View.setRole_self⟩
  · rw [View.setRole_of_ne]
    · exact hr
    · rintro rfl
      exact hne (Option.some.inj (hr.symm.trans hheld))
  · rcases View.role_of_setRole hr with ⟨rfl, rfl⟩ | ⟨-, hr⟩
    · exact Or.inr ⟨rfl, rfl, hheld⟩
    · exact Or.inl hr

end Owns

end Earth
end EgosNet
