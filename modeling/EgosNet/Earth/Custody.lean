import EgosNet.Earth.AddressSpaces

/-!
# The way of a page

A page is handed out, becomes a table or a page of a process, and is given back.  This file follows
it, through whole runs, with the names of the pages that the requests and the calls of the allocator
show.

* `release_exact`: `page_table_free` gives back exactly what the process got since it had no page
  table, each page once, as long as the process has mapped nothing at an address where free memory
  is.  So a process that comes and goes leaves the allocator as it was.
* `user_confined`: the entries of a process that is not a system process point to its own pages and
  to the one page that is shared, and to nothing else --- to no table, to no page of another
  process, to no memory of the kernel and to no device.
-/

namespace EgosNet
namespace Earth

open Foundation

variable {al : Allocator} {s s' : Vm al} {w w' w₀ : World al} {V V' : View} {pid q : ℤ} {o : Done}
  {a b v pa : ℕ} {l : List ℕ} {mem : Words} {heap : al.State} {is is₀ : List Op}
  {os os₀ : List Done}

/-! ## What a step does to the roles -/

/-- A page that is waiting belongs to nobody. -/
theorem not_belongs_of_held (h : V.role a = some .held) : ¬ Belongs V pid a := by
  rintro ⟨r, hr, ho⟩
  obtain rfl := Option.some.inj (h.symm.trans hr)
  cases ho

/-- A page that was handed out belongs to nobody yet. -/
theorem belongs_setRole_held (h : V.role a = none) :
    Belongs (V.setRole a .held) q b ↔ Belongs V q b := by
  constructor
  · rintro ⟨r, hr, ho⟩
    rcases View.role_of_setRole hr with ⟨-, rfl⟩ | ⟨-, hr⟩
    · cases ho
    · exact ⟨r, hr, ho⟩
  · rintro ⟨r, hr, ho⟩
    exact ⟨r, View.setRole_of_some h hr, ho⟩

theorem data_setRole_held (h : V.role a = none) :
    (V.setRole a .held).role b = some (.data q v) ↔ V.role b = some (.data q v) := by
  constructor
  · intro hr
    rcases View.role_of_setRole hr with ⟨-, heq⟩ | ⟨-, hr⟩
    · cases heq
    · exact hr
  · exact fun hr => View.setRole_of_some h hr

/-- A role after a page has been mapped is one of the new ones or one from before. -/
theorem Maps.back {r : Role} (h : Maps pid v pa s V s' V' l) (hr : V'.role b = some r) :
    b ∈ l ∧ (r = .root pid ∨ ∃ l1, r = .table pid l1) ∨ b = pa ∧ r = .data pid v ∨
      V.role b = some r := by
  by_cases hl : b ∈ l
  · left
    refine ⟨hl, ?_⟩
    rcases h.new b hl with hn | ⟨l1, hn⟩
    · exact Or.inl (Option.some.inj (hr.symm.trans hn))
    · exact Or.inr ⟨l1, Option.some.inj (hr.symm.trans hn)⟩
  · right
    by_cases hb : b = pa
    · left
      rw [hb, h.data] at hr
      exact ⟨hb, (Option.some.inj hr).symm⟩
    · right
      rwa [h.old b hl hb] at hr

/-- Only the page that was waiting has lost its role. -/
theorem Maps.keep {r : Role} (h : Maps pid v pa s V s' V' l) (hr : V.role b = some r)
    (hne : r ≠ .held) : V'.role b = some r := by
  have hl : b ∉ l := fun hmem => by
    rw [(h.fresh b hmem).2] at hr
    cases hr
  have hb : b ≠ pa := by
    rintro rfl
    exact hne (Option.some.inj (hr.symm.trans h.waiting))
  rwa [h.old b hl hb]

/-- **What a process gets when it maps a page**: the page, and the tables that were made for it. -/
theorem Maps.belongs_iff (h : Maps pid v pa s V s' V' l) :
    Belongs V' q b ↔ Belongs V q b ∨ q = pid ∧ (b = pa ∨ b ∈ l) := by
  constructor
  · rintro ⟨r, hr, ho⟩
    rcases h.back hr with ⟨hl, rfl | ⟨l1, rfl⟩⟩ | ⟨hb, rfl⟩ | hr
    · exact Or.inr ⟨(Option.some.inj ho).symm, Or.inr hl⟩
    · exact Or.inr ⟨(Option.some.inj ho).symm, Or.inr hl⟩
    · exact Or.inr ⟨(Option.some.inj ho).symm, Or.inl hb⟩
    · exact Or.inl ⟨r, hr, ho⟩
  · rintro (⟨r, hr, ho⟩ | ⟨rfl, rfl | hl⟩)
    · refine ⟨r, h.keep hr ?_, ho⟩
      rintro rfl
      cases ho
    · exact ⟨_, h.data, rfl⟩
    · rcases h.new b hl with hn | ⟨l1, hn⟩
      · exact ⟨_, hn, rfl⟩
      · exact ⟨_, hn, rfl⟩

theorem Maps.data_iff {x : ℕ} (h : Maps pid v pa s V s' V' l) :
    V'.role b = some (.data q x) ↔ V.role b = some (.data q x) ∨ q = pid ∧ b = pa ∧ x = v := by
  constructor
  · intro hr
    rcases h.back hr with ⟨-, heq | ⟨l1, heq⟩⟩ | ⟨hb, heq⟩ | hr
    · cases heq
    · cases heq
    · obtain ⟨rfl, rfl⟩ := Role.data.inj heq
      exact Or.inr ⟨rfl, hb, rfl⟩
    · exact Or.inl hr
  · rintro (hr | ⟨rfl, rfl, rfl⟩)
    · exact h.keep hr (by simp)
    · exact h.data

/-- A process that has released its page table has nothing, and the others have what they had. -/
theorem belongs_release : Belongs (V.release pid) q b ↔ Belongs V q b ∧ q ≠ pid := by
  constructor
  · rintro ⟨r, hr, ho⟩
    obtain ⟨hr, hne⟩ := View.role_of_release hr
    rw [ho] at hne
    exact ⟨⟨r, hr, ho⟩, fun heq => hne (congrArg some heq)⟩
  · rintro ⟨⟨r, hr, ho⟩, hne⟩
    refine ⟨r, View.release_of_owner hr ?_, ho⟩
    rw [ho]
    exact fun heq => hne (Option.some.inj heq)

theorem data_release :
    (V.release pid).role b = some (.data q v) ↔ V.role b = some (.data q v) ∧ q ≠ pid := by
  constructor
  · intro hr
    obtain ⟨hr, hne⟩ := View.role_of_release hr
    exact ⟨hr, fun heq => hne (congrArg some heq)⟩
  · rintro ⟨hr, hne⟩
    exact View.release_of_owner hr fun heq => hne (Option.some.inj heq)

/-! ## The pages of a process, by what has happened -/

/-- What a step does to the pages of a process. -/
def dataStep (pid : ℤ) (pages : List ℕ) (o : Done) : List ℕ :=
  match o.op with
  | .alloc _ => pages
  | .map q _ ppageId => if q = pid then pageAddr ppageId :: pages else pages
  | .free q => if q = pid then [] else pages

/-- The pages that have been mapped for the process since it last released its page table. -/
def dataPages (pid : ℤ) (os : List Done) : List ℕ := os.foldl (dataStep pid) []

theorem dataPages_append (pid : ℤ) (os : List Done) (o : Done) :
    dataPages pid (os ++ [o]) = dataStep pid (dataPages pid os) o := by
  unfold dataPages
  rw [List.foldl_append]
  rfl

/-- The view has the pages of the processes. -/
def Recorded (V : View) (os : List Done) : Prop :=
  ∀ q a, a ∈ dataPages q os ↔ ∃ v, V.role a = some (.data q v)

/-- **One step.** -/
theorem Recorded.step {i : Op} (hV : Keeps w V) (h : Recorded V os) (hC : Handed w i)
    (hf : vmStep w i = some (w', o)) : ∃ V', Keeps w' V' ∧ Recorded V' (os ++ [o]) := by
  cases i with
  | alloc c =>
    obtain ⟨a, hfresh, hop, -, hV'⟩ := hV.alloc hf
    refine ⟨_, hV', fun q b => ?_⟩
    simp only [data_setRole_held hfresh.role]
    rw [dataPages_append, ← h q b]
    unfold dataStep
    rw [hop]
  | map pid v p =>
    obtain ⟨-, V', l, hmaps, rfl, -, hV'⟩ := hV.map hC hf
    refine ⟨V', hV', fun q b => ?_⟩
    simp only [hmaps.data_iff, exists_or, exists_and_left, exists_eq, and_true]
    rw [dataPages_append, ← h q b]
    show b ∈ (if pid = q then pageAddr p :: dataPages q os else dataPages q os) ↔ _
    split_ifs with hq
    · rw [List.mem_cons, or_comm]
      exact or_congr_right (and_iff_right hq.symm).symm
    · exact (or_iff_left fun hc => hq hc.1.symm).symm
  | free pid =>
    obtain ⟨-, l, -, rfl, -, hV'⟩ := hV.free hf
    refine ⟨_, hV', fun q b => ?_⟩
    simp only [data_release, exists_and_right]
    rw [dataPages_append, ← h q b]
    show b ∈ (if pid = q then [] else dataPages q os) ↔ _
    split_ifs with hq
    · exact iff_of_false List.not_mem_nil fun hc => hc.2 hq.symm
    · exact (and_iff_left fun heq => hq heq.symm).symm

/-- **Every run.** -/
theorem recorded_of_run (h : Run vmStep Handed (World.init mem heap) is os w) :
    ∃ V, Keeps w V ∧ Recorded V os := by
  refine h.invariant (P := fun os w => ∃ V, Keeps w V ∧ Recorded V os) ?_ ?_
  · rintro os w i w' o ⟨V, hV, hrec⟩ hC hf
    exact hrec.step hV hC hf
  · exact ⟨_, keeps_init mem heap, fun q a => iff_of_false List.not_mem_nil (by simp)⟩

/-! ## What a process has got -/

/-- The step gave the page to the process: it mapped it, or it allocated it for a table. -/
def Done.Gives (o : Done) (pid : ℤ) (a : ℕ) : Prop :=
  ∃ v p, o.op = .map pid v p ∧ (a = pageAddr p ∨ .pmalloc a ∈ o.calls)

/-- The request is not to release the page table of the process, and maps nothing for it where free
memory is. -/
def BelowApps (pid : ℤ) : Op → Prop
  | .alloc _ => True
  | .map q vpageNo _ => q = pid → vpageNo * PAGE_SIZE < APPS_PAGES_BASE
  | .free q => q ≠ pid

instance (pid : ℤ) (i : Op) : Decidable (BelowApps pid i) :=
  match i with
  | .alloc _ => .isTrue trivial
  | .map q vpageNo _ =>
    inferInstanceAs (Decidable (q = pid → vpageNo * PAGE_SIZE < APPS_PAGES_BASE))
  | .free q => inferInstanceAs (Decidable (q ≠ pid))

/-- While a process is being set up. -/
def Building (pid : ℤ) (w : World al) (i : Op) : Prop := Handed w i ∧ BelowApps pid i

instance (pid : ℤ) (w : World al) (i : Op) : Decidable (Building pid w i) :=
  inferInstanceAs (Decidable (_ ∧ _))

/-- What belongs to the process is what the steps have given to it. -/
structure Given (pid : ℤ) (V : View) (os : List Done) : Prop where
  gives : ∀ a, Belongs V pid a ↔ ∃ o ∈ os, o.Gives pid a
  low : ∀ {a v}, V.role a = some (.data pid v) → v * PAGE_SIZE < APPS_PAGES_BASE

/-- What is in use is what was, what the process has and what is waiting; and what of it was in use
before was waiting then. -/
structure Balance (pid : ℤ) (w₀ w : World al) (V : View) : Prop where
  inUse : ∀ a, a ∈ al.inUse w.vm.heap ↔
    a ∈ al.inUse w₀.vm.heap ∨ Belongs V pid a ∨ a ∈ w.held
  early : ∀ a, a ∈ al.inUse w₀.vm.heap → Belongs V pid a ∨ a ∈ w.held → a ∈ w₀.held

theorem gives_append {x : Done} :
    (∃ o ∈ os ++ [x], o.Gives pid a) ↔ (∃ o ∈ os, o.Gives pid a) ∨ x.Gives pid a := by
  simp only [List.mem_append, List.mem_singleton, or_and_right, exists_or, exists_eq_left]

/-- A step that gives nothing. -/
theorem Given.idle (h : Given pid V os) (hb : ∀ a, Belongs V' pid a ↔ Belongs V pid a)
    (hd : ∀ {a v}, V'.role a = some (.data pid v) → V.role a = some (.data pid v))
    (ho : ∀ a, ¬ o.Gives pid a) : Given pid V' (os ++ [o]) := by
  refine ⟨fun a => ?_, fun hr => h.low (hd hr)⟩
  rw [hb, h.gives, gives_append]
  exact (or_iff_left (ho a)).symm

/-- **One step.** -/
theorem Given.step {i : Op} (w₀ : World al) (hV : Keeps w V) (h : Given pid V os)
    (hC : Building pid w i) (hf : vmStep w i = some (w', o)) :
    ∃ V', Keeps w' V' ∧ Given pid V' (os ++ [o]) ∧
      ((∀ q, i.process = some q → q = pid) → Balance pid w₀ w V → Balance pid w₀ w' V') := by
  cases i with
  | alloc c =>
    obtain ⟨a, hfresh, hop, hheld, hV'⟩ := hV.alloc hf
    refine ⟨_, hV', h.idle (fun b => belongs_setRole_held hfresh.role)
      (data_setRole_held hfresh.role).mp ?_, fun _ hbal => ⟨fun b => ?_, fun b hb hor => ?_⟩⟩
    · rintro b ⟨v, p, hmap, -⟩
      rw [hop] at hmap
      cases hmap
    · rw [hfresh.inUse, hheld, belongs_setRole_held hfresh.role, Set.mem_insert_iff,
        Finset.mem_insert]
      show b = a ∨ b ∈ al.inUse w.vm.heap ↔ _
      rw [hbal.inUse]
      tauto
    · rw [belongs_setRole_held hfresh.role, hheld, Finset.mem_insert] at hor
      -- what was in use is not what is handed out now
      have hne : b ≠ a := by
        rintro rfl
        exact hfresh.unused ((hbal.inUse b).mpr (Or.inl hb))
      exact hbal.early b hb (hor.imp_right fun hm => hm.resolve_left hne)
  | map q v p =>
    obtain ⟨hpid, V', l, hmaps, rfl, hheld, hV'⟩ := hV.map hC.1 hf
    have hgives : ∀ b, Done.Gives ⟨.map q v p, l.map .pmalloc⟩ pid b ↔
        pid = q ∧ (b = pageAddr p ∨ b ∈ l) := by
      intro b
      constructor
      · rintro ⟨v', p', hop, hor⟩
        obtain ⟨rfl, -, rfl⟩ := Op.map.inj hop
        exact ⟨rfl, by simpa using hor⟩
      · rintro ⟨rfl, hor⟩
        exact ⟨v, p, rfl, by simpa using hor⟩
    refine ⟨V', hV', ⟨fun b => ?_, fun {b x} hr => ?_⟩, fun hown hbal => ?_⟩
    · rw [hmaps.belongs_iff, h.gives, gives_append, hgives]
    · rcases hmaps.data_iff.mp hr with hr | ⟨rfl, -, rfl⟩
      · exact h.low hr
      · have hlow : v * PAGE_SIZE < APPS_PAGES_BASE := hC.2 rfl
        exact (Nat.mul_le_mul_right _ (Nat.mod_le v _)).trans_lt hlow
    · obtain rfl := hown q rfl
      have hinUse : ∀ b, b ∈ al.inUse w'.vm.heap ↔ b ∈ al.inUse w.vm.heap ∨ b ∈ l := hmaps.inUse
      have hp : pageAddr p ∈ w.held := hC.1
      refine ⟨fun b => ?_, fun b hb hor => ?_⟩
      · rw [hinUse, hbal.inUse, hmaps.belongs_iff, hheld, Finset.mem_erase]
        by_cases hb : b = pageAddr p
        · rw [hb]
          simp [hp]
        · simp only [hb, ne_eq, not_false_eq_true, true_and, false_or]
          tauto
      · rw [hmaps.belongs_iff, hheld, Finset.mem_erase] at hor
        rcases hor with (hbel | ⟨-, rfl | hl⟩) | ⟨-, hm⟩
        · exact hbal.early b hb (Or.inl hbel)
        · exact hbal.early _ hb (Or.inr hp)
        · exact absurd ((hbal.inUse b).mpr (Or.inl hb)) (hmaps.fresh b hl).1
        · exact hbal.early b hb (Or.inr hm)
  | free q =>
    obtain ⟨-, l, -, rfl, -, hV'⟩ := hV.free hf
    have hne : pid ≠ q := fun heq => hC.2 heq.symm
    refine ⟨_, hV', h.idle (fun b => ?_) (fun hr => (data_release.mp hr).1) ?_, fun hown _ => ?_⟩
    · rw [belongs_release]
      exact and_iff_left hne
    · rintro b ⟨v, p, hop, -⟩
      cases hop
    · exact absurd (hown q rfl).symm hne

/-- **Every run** of a process being set up, from a state in which it has nothing. -/
theorem given_of_run {V₀ : View} (hV₀ : Keeps w₀ V₀) (hb : w₀.vm.base pid = 0)
    (h : Run vmStep (Building pid) w₀ is os w) :
    ∃ V, Keeps w V ∧ Given pid V os ∧
      ((∀ o ∈ os, ∀ q, o.op.process = some q → q = pid) → Balance pid w₀ w V) := by
  have hnone : ∀ a, ¬ Belongs V₀ pid a := fun a ha => hV₀.owns.base_of_belongs ha hb
  refine h.invariant (P := fun os w => ∃ V, Keeps w V ∧ Given pid V os ∧
    ((∀ o ∈ os, ∀ q, o.op.process = some q → q = pid) → Balance pid w₀ w V)) ?_ ?_
  · rintro os w i w' o ⟨V, hV, hgiven, hbal⟩ hC hf
    obtain ⟨V', hV', hgiven', hbal'⟩ := hgiven.step w₀ hV hC hf
    refine ⟨V', hV', hgiven', fun hall => hbal' ?_ (hbal ?_)⟩
    · intro q hq
      refine hall o (by simp) q ?_
      rwa [op_of_vmStep hf]
    · exact fun o ho => hall o (List.mem_append_left _ ho)
  · refine ⟨V₀, hV₀, ⟨fun a => iff_of_false (hnone a) (by simp), fun hr => ?_⟩, fun _ =>
      ⟨fun a => ⟨Or.inl, ?_⟩, fun a _ hor => hor.resolve_left (hnone a)⟩⟩
    · exact absurd ⟨_, hr, rfl⟩ (hnone _)
    · rintro (hin | hbel | hm)
      · exact hin
      · exact absurd hbel (hnone a)
      · exact hV₀.owns.inUse ((hV₀.held a).mpr hm)

/-! ## Exact release -/

/-- `page_table_free` returns. -/
theorem Keeps.free_returns (h : Keeps w V) (hpid : PidOk pid) :
    ∃ w' o, vmStep w (.free pid) = some (w', o) := by
  unfold vmStep
  have hends : Ends (perform w.vm.quiet (.free pid)) (fun _ => True) (fun _ => False) :=
    h.owns.quiet.pageTableFree.mono (fun _ _ => trivial) fun _ hnot => hnot hpid
  cases hp : perform w.vm.quiet (.free pid) with
  | error e =>
    rw [hp] at hends
    exact hends.elim
  | ok s' =>
    change perform { w.vm with calls := [] } (.free pid) = .ok s' at hp
    rw [hp]
    exact ⟨_, _, rfl⟩

/-- Nothing is missed if nothing is mapped where free memory is. -/
theorem Owns.released_of_low (h : Owns s V)
    (hlow : ∀ {a v}, V.role a = some (.data pid v) → v * PAGE_SIZE < APPS_PAGES_BASE) :
    Released V pid a ↔ Belongs V pid a := by
  refine ⟨Released.belongs, ?_⟩
  rintro ⟨r, hr, ho⟩
  refine ⟨r, hr, ho, ?_⟩
  rintro v rfl heq
  have hlt := hlow hr
  rw [← heq] at hlt
  exact absurd (h.isPage hr).base_le (not_le.mpr hlt)

/-- **Release is exact.**  From any reachable state in which the process has no page table let it be
set up, in any run in which it maps only pages below the free memory; the other processes may do
what they like.  Then `page_table_free` returns and gives back each page that was mapped for the
process or allocated for one of its tables, once, and nothing else.  If nobody else did anything,
and all pages that were handed out have been mapped, then what is in use is what was in use at the
start. -/
theorem release_exact (hpid : PidOk pid) (h₀ : Run vmStep Handed (World.init mem heap) is₀ os₀ w₀)
    (hb : w₀.vm.base pid = 0) (h : Run vmStep (Building pid) w₀ is os w) :
    ∃ (w' : World al) (l : List ℕ),
      vmStep w (.free pid) = some (w', ⟨.free pid, l.map .pfree⟩) ∧ l.Nodup ∧
      (∀ a, a ∈ l ↔ ∃ o ∈ os, o.Gives pid a) ∧
      ((∀ i ∈ is, ∀ q, i.process = some q → q = pid) → w.held = w₀.held →
        al.inUse w'.vm.heap = al.inUse w₀.vm.heap) := by
  obtain ⟨V₀, hV₀, -⟩ := recorded_of_run h₀
  obtain ⟨V, hV, hgiven, hbal⟩ := given_of_run hV₀ hb h
  obtain ⟨w', o, hf⟩ := hV.free_returns hpid
  obtain ⟨-, l, hfrees, rfl, -, -⟩ := hV.free hf
  have hmem : ∀ a, a ∈ l ↔ Belongs V pid a := fun a =>
    (hfrees.mem a).trans (hV.owns.released_of_low hgiven.low)
  refine ⟨w', l, hf, hfrees.nodup, fun a => (hmem a).trans (hgiven.gives a), ?_⟩
  intro hown hheld
  have hbal' := hbal fun o ho q hq => hown o.op (by
    rw [← ops_of_run h]
    exact List.mem_map_of_mem ho) q hq
  ext a
  rw [hfrees.inUse, hmem]
  show a ∈ al.inUse w.vm.heap ∧ _ ↔ _
  rw [hbal'.inUse]
  constructor
  · rintro ⟨hin | hbel | hm, hnot⟩
    · exact hin
    · exact absurd hbel hnot
    · rw [hheld] at hm
      exact hV₀.owns.inUse ((hV₀.held a).mpr hm)
  · intro hin
    refine ⟨Or.inl hin, fun hbel => ?_⟩
    -- it was waiting at the start, so it still is
    have hm := hbal'.early a hin (Or.inl hbel)
    rw [← hheld] at hm
    exact not_belongs_of_held ((hV.held a).mpr hm) hbel

/-- A process with one page comes and goes. -/
theorem release_exact_mapsCode :
    ∃ (os : List Done) (w w' : World freeList) (l : List ℕ),
      Run vmStep (Building 6) (World.init (fun _ => 0) someFree) mapsCode os w ∧
      vmStep w (.free 6) = some (w', ⟨.free 6, l.map .pfree⟩) ∧ l.Nodup ∧
      (∀ a, a ∈ l ↔ ∃ o ∈ os, o.Gives 6 a) ∧
      freeList.inUse w'.vm.heap = freeList.inUse someFree := by
  have hany : (exec (guarded vmStep (Building 6)) (World.init (fun _ => 0) someFree) mapsCode).any
      (fun r => decide (r.1.held = ∅)) = true := by decide +kernel
  obtain ⟨⟨w, os⟩, hexec, hheld⟩ := (Option.any_eq_true _ _).mp hany
  have hrun := run_of_exec_guarded hexec
  obtain ⟨w', l, hf, hnodup, hmem, hin⟩ := release_exact (by decide) Run.nil rfl hrun
  refine ⟨os, w, w', l, hrun, hf, hnodup, hmem, hin ?_ (of_decide_eq_true hheld)⟩
  intro i hi q hq
  simp only [mapsCode, List.mem_cons, List.not_mem_nil, or_false] at hi
  rcases hi with rfl | rfl
  · cases hq
  · exact (Option.some.inj hq).symm

/-! ## Confinement -/

/-- The page is a table of some process: its root, or a page that an entry of the root points to. -/
def LiveTable (s : Vm al) (a : ℕ) : Prop :=
  ∃ q, s.base q ≠ 0 ∧ (a = s.base q ∨ ∃ l1 < 1024, s.mem (s.base q + 4 * l1) &&& PTE_V ≠ 0 ∧
    a = pteAddr (s.mem (s.base q + 4 * l1)))

/-- A valid leaf entry that is reached from the root of the process points to the page. -/
structure Leaf (s : Vm al) (pid : ℤ) (l1 l2 pa : ℕ) : Prop where
  base : s.base pid ≠ 0
  l1_lt : l1 < 1024
  l2_lt : l2 < 1024
  table : s.mem (s.base pid + 4 * l1) &&& PTE_V ≠ 0
  valid : s.mem (pteAddr (s.mem (s.base pid + 4 * l1)) + 4 * l2) &&& PTE_V ≠ 0
  addr : pa = pteAddr (s.mem (pteAddr (s.mem (s.base pid + 4 * l1)) + 4 * l2))

/-- The registers of the devices and the flash, with their numbers of pages. -/
def deviceRegions : List (ℕ × ℕ) :=
  [(CLINT_BASE, 16), (UART_BASE, 1), (SDHCI_BASE, 1), (ETH_CTL_BASE, 32), (FLASH_ROM_BASE, 1024)]

/-- A valid entry of a root is for a table. -/
theorem Owns.table_of_valid {l1 : ℕ} (h : Owns s V) (hb : s.base pid ≠ 0) (hl1 : l1 < 1024)
    (hvalid : s.mem (s.base pid + 4 * l1) &&& PTE_V ≠ 0) :
    ∃ a, V.role a = some (.table pid l1) ∧ s.mem (s.base pid + 4 * l1) = nextLevel a ∧
      pteAddr (s.mem (s.base pid + 4 * l1)) = a := by
  rcases h.entry hb hl1 with hz | ⟨a, ha⟩
  · rw [hz] at hvalid
    exact absurd rfl hvalid
  · have hmem := (h.table ha).2.2
    refine ⟨a, ha, hmem, ?_⟩
    rw [hmem, pteAddr_nextLevel (h.isPage ha).isFrame]

/-- A table has the role of one. -/
theorem Owns.role_of_liveTable (h : Owns s V) (ha : LiveTable s a) :
    ∃ q, V.role a = some (.root q) ∨ ∃ l1, V.role a = some (.table q l1) := by
  obtain ⟨q, hb, rfl | ⟨l1, hl1, hvalid, rfl⟩⟩ := ha
  · exact ⟨q, Or.inl (h.base hb).2⟩
  · obtain ⟨b, hrole, -, haddr⟩ := h.table_of_valid hb hl1 hvalid
    rw [haddr]
    exact ⟨q, Or.inr ⟨l1, hrole⟩⟩

/-- A leaf says what the page is mapped to. -/
theorem Owns.lookup_of_leaf {l1 l2 : ℕ} (h : Owns s V) (hl : Leaf s pid l1 l2 pa) :
    V.lookup pid (l1 * 1024 + l2) = some pa := by
  obtain ⟨a, hrole, -, haddr⟩ := h.table_of_valid hl.base hl.l1_lt hl.table
  have hvalid := hl.valid
  have hpa := hl.addr
  rw [haddr, h.leaf hrole hl.l2_lt] at hvalid hpa
  cases hv : V.lookup pid (l1 * 1024 + l2) with
  | none =>
    rw [hv] at hvalid
    exact absurd rfl hvalid
  | some x =>
    rw [hv] at hpa
    rw [hpa]
    exact congrArg some (pteAddr_leaf (h.target_isFrame hv)).symm

/-- An entry for a table is not a leaf: it gives no permissions. -/
theorem nextLevel_pointer (h : IsFrame a) : nextLevel a &&& (PTE_R ||| PTE_W ||| PTE_X) = 0 := by
  have hlow : nextLevel a &&& 15 = 1 := by
    rw [show (15 : ℕ) = 2 ^ 4 - 1 by norm_num, low_bits, nextLevel_eq h]
    omega
  have hmask : PTE_R ||| PTE_W ||| PTE_X = 15 &&& 14 := by decide
  rw [hmask, ← Nat.land_assoc, hlow]
  rfl

/-- What a user process sees at its own address is the page that is shared. -/
theorem eq_of_identity (hpid : USER_PID_START ≤ pid) (h : Identity pid v) :
    v * PAGE_SIZE = SHELL_WORK_DIR := by
  obtain ⟨r, hr, hle, hlt⟩ := h
  unfold identityRegions at hr
  rw [if_neg (not_lt.mpr hpid), List.mem_singleton] at hr
  subst hr
  unfold SHELL_WORK_DIR PAGE_SIZE at *
  omega

/-- **A user process is confined.**  In every reachable state, no entry of its root is a leaf, and
no valid leaf that is reached from it points to a table of any process, to a page of another
process, to memory below the free memory other than the shared page, or to a device. -/
theorem user_confined (h : Run vmStep Handed (World.init mem heap) is os w)
    (hpid : USER_PID_START ≤ pid) :
    (∀ l1 < 1024, w.vm.base pid ≠ 0 →
      w.vm.mem (w.vm.base pid + 4 * l1) &&& (PTE_R ||| PTE_W ||| PTE_X) = 0) ∧
    ∀ l1 l2 pa, Leaf w.vm pid l1 l2 pa →
      ¬ LiveTable w.vm pa ∧ (∀ q, q ≠ pid → pa ∉ dataPages q os) ∧
      (pa < APPS_PAGES_BASE → pa = SHELL_WORK_DIR) ∧
      ∀ r ∈ deviceRegions, ¬ (r.1 ≤ pa ∧ pa < r.1 + r.2 * PAGE_SIZE) := by
  obtain ⟨V, hV, hrec⟩ := recorded_of_run h
  refine ⟨fun l1 hl1 hb => ?_, fun l1 l2 pa hl => ?_⟩
  · rcases hV.owns.entry hb hl1 with hz | ⟨a, ha⟩
    · rw [hz]
      rfl
    · rw [(hV.owns.table ha).2.2]
      exact nextLevel_pointer (hV.owns.isPage ha).isFrame
  -- it is the shared page, or a page of this process
  have hcases : pa = SHELL_WORK_DIR ∨ V.role pa = some (.data pid (l1 * 1024 + l2)) := by
    obtain ⟨-, ⟨heq, hid⟩ | hr⟩ := hV.owns.target (hV.owns.lookup_of_leaf hl)
    · exact Or.inl (heq.trans (eq_of_identity hpid hid))
    · exact Or.inr hr
  -- the shared page has no role
  have hrole : ∀ r, V.role pa = some r → r = .data pid (l1 * 1024 + l2) := by
    intro r hr
    rcases hcases with rfl | hd
    · exact absurd (hV.owns.isPage hr).base_le (by decide)
    · exact Option.some.inj (hr.symm.trans hd)
  refine ⟨fun hlive => ?_, fun q hq hmem => ?_, fun hlt => ?_, fun r hr => ?_⟩
  · obtain ⟨q, hr | ⟨k, hr⟩⟩ := hV.owns.role_of_liveTable hlive
    · cases hrole _ hr
    · cases hrole _ hr
  · obtain ⟨v, hr⟩ := (hrec q pa).mp hmem
    exact hq (Role.data.inj (hrole _ hr)).1
  · rcases hcases with heq | hd
    · exact heq
    · exact absurd (hV.owns.isPage hd).base_le (not_le.mpr hlt)
  · -- the devices are below the memory
    have hbelow : ∀ r ∈ deviceRegions, r.1 + r.2 * PAGE_SIZE ≤ SHELL_WORK_DIR := by decide
    have hge : SHELL_WORK_DIR ≤ pa := by
      rcases hcases with rfl | hd
      · exact Nat.le_refl _
      · exact (show SHELL_WORK_DIR ≤ APPS_PAGES_BASE by decide).trans (hV.owns.isPage hd).base_le
    rintro ⟨-, hlt⟩
    exact absurd ((hbelow r hr).trans hge) (not_le.mpr hlt)

/-- A process with a page of code. -/
theorem user_confined_mapsCode :
    ∃ (os : List Done) (w : World freeList),
      Run vmStep Handed (World.init (fun _ => 0) someFree) mapsCode os w ∧
      Leaf w.vm 6 512 512 0x80400000 ∧ ¬ LiveTable w.vm 0x80400000 ∧
      ∀ q, q ≠ 6 → 0x80400000 ∉ dataPages q os := by
  have hany : (exec (guarded vmStep Handed) (World.init (fun _ => 0) someFree) mapsCode).any
      (fun r => let s := r.1.vm
        let l1Pte := s.mem (s.base 6 + 4 * 512)
        let l2Pte := s.mem (pteAddr l1Pte + 4 * 512)
        decide (s.base 6 ≠ 0 ∧ l1Pte &&& PTE_V ≠ 0 ∧ l2Pte &&& PTE_V ≠ 0 ∧
          0x80400000 = pteAddr l2Pte)) = true := by decide +kernel
  obtain ⟨⟨w, os⟩, hexec, hleaf⟩ := (Option.any_eq_true _ _).mp hany
  obtain ⟨hb, htable, hvalid, haddr⟩ := of_decide_eq_true hleaf
  have hrun := run_of_exec_guarded hexec
  have hl : Leaf w.vm 6 512 512 0x80400000 := ⟨hb, by decide, by decide, htable, hvalid, haddr⟩
  obtain ⟨-, hconf⟩ := user_confined hrun (show USER_PID_START ≤ 6 by decide)
  obtain ⟨hlive, hdata, -⟩ := hconf 512 512 0x80400000 hl
  exact ⟨os, w, hrun, hl, hlive, hdata⟩

end Earth
end EgosNet
