import EgosNet.Grass.Mlfq

/-!
# The discipline of the queues

A slot is moved between the queues from many places: by the four events of `mlfq_update`, by the
scan that turns a queue, and by `mlfq` itself when it puts the current process back.  The level is
computed anew each time from a number that changes while the slot is queued, so a slot is as a rule
not where the number says.  What holds nevertheless is that it is in one place only, and that a
system process is in the highest queue --- because `enqueue_pid`, the only way in, first takes the
slot out of all three queues, and compares the pid before it looks at the number.

* `Disciplined`: no slot is queued twice, and below the highest level there are user processes only.
* `disciplined_step`: no step breaks the discipline of initialised queues.
* `queued_once_and_system_high`: it holds in every run, from the initialisation on.
-/

namespace EgosNet
namespace Grass

open Foundation

section Scheduler

variable {F : Queue Slot} {pid2idx : ProcSet → ℤ → Option Slot} {m m' : Mlfq F.Carrier}
  {ps : ProcSet} {i j : Slot} {l l' : Level} {pid r : ℤ}

/-! ## The discipline of the queues -/

/-- No slot is queued twice, and only user processes are below the highest level. -/
structure Disciplined (m : Mlfq F.Carrier) : Prop where
  nodup : (m.queued F).Nodup
  user : ∀ l, l ≠ .high → ∀ i ∈ m.level F l, USER_PID_START ≤ (m.procSet i).pid

/-- Taking slots out keeps the discipline. -/
theorem Disciplined.of_subperm (h : Disciplined m) (hps : m'.procSet = m.procSet)
    (hsub : ∀ l, (m'.level F l).Subperm (m.level F l)) : Disciplined m' where
  nodup := nodup_queued_of_subperm h.nodup hsub
  user l hl i hi := by
    rw [hps]
    exact h.user l hl i ((hsub l).subset hi)

theorem Disciplined.rmSlot (h : Disciplined m) : Disciplined (m.rmSlot F i) :=
  h.of_subperm rfl fun _ => level_rmSlot_subperm h.nodup

theorem Disciplined.push (h : Disciplined m) (hi : ∀ l, i ∉ m.level F l)
    (hl : l ≠ .high → USER_PID_START ≤ (m.procSet i).pid) : Disciplined (m.push F l i) where
  nodup := nodup_push h.nodup hi
  user k hk j hj := by
    rw [procSet_push]
    rw [level_push, List.mem_append] at hj
    rcases hj with hj | hj
    · exact h.user k hk j hj
    · split_ifs at hj with hkl
      · obtain rfl := List.mem_singleton.mp hj
        exact hl (hkl ▸ hk)
      · exact absurd hj (by simp)

theorem Disciplined.pickNextPid (h : Disciplined m) : Disciplined (pickNextPid F m).2 :=
  h.of_subperm pickNextPid_frame.1 fun _ => level_pickNextPid_subperm

/-- A queue that was just initialised is disciplined. -/
theorem disciplined_init : Disciplined (mlfqInit F m) := by
  have hnil (l : Level) : (mlfqInit F m).level F l = [] := by
    cases l <;> exact F.items_init
  constructor
  · rw [Mlfq.queued, hnil, hnil, hnil]
    exact List.nodup_nil
  · intro l _ i hi
    rw [hnil] at hi
    exact absurd hi (by simp)

/-- What `pid2idx` is for: it finds the slot that holds the pid. -/
def Translates (pid2idx : ProcSet → ℤ → Option Slot) : Prop :=
  ∀ ps pid i, pid2idx ps pid = some i → (ps i).pid = pid

theorem Disciplined.removePid (h : Disciplined m) (hm : removePid F pid2idx m pid = some m') :
    Disciplined m' := by
  obtain ⟨i, -, rfl⟩ := removePid_eq_some hm
  exact h.rmSlot

theorem Disciplined.enqueuePid (hidx : Translates pid2idx) (h : Disciplined m)
    (hm : enqueuePid F pid2idx m pid = some m') : Disciplined m' := by
  obtain ⟨i, hi, ⟨-, rfl⟩ | ⟨l, -, rfl, hl⟩⟩ := enqueuePid_eq_some hm
  · exact h.rmSlot
  · refine h.rmSlot.push (fun l => notMem_level_rmSlot h.nodup) fun hne => ?_
    rw [procSet_rmSlot, hidx _ _ _ hi]
    rcases levelForPid_eq_some hl with h0 | ⟨-, huser⟩
    · cases l with
      | high => exact absurd rfl hne
      | mid => exact absurd h0 (by decide)
      | low => exact absurd h0 (by decide)
    · exact huser

theorem Disciplined.mlfq (hidx : Translates pid2idx) (h : Disciplined m)
    (hm : mlfq F pid2idx m = some (m', r)) : Disciplined m' := by
  obtain ⟨m₁, hfirst, hrest⟩ := mlfq_eq_some hm
  have h₁ : Disciplined m₁ := by
    rcases hfirst with ⟨-, hrm⟩ | ⟨-, rfl⟩
    · exact h.removePid hrm
    · exact h
  rcases hrest with ⟨-, rfl, -⟩ | ⟨-, -, hlast⟩
  · exact h₁.pickNextPid
  · split_ifs at hlast
    · exact h₁.pickNextPid.enqueuePid hidx hlast
    · rw [hlast]
      exact h₁.pickNextPid

end Scheduler

/-! ## Runs of the scheduler -/

/-- What may happen next: a call of `mlfq`, a call of `mlfq_update`, or a change of the process
table and of the current process by the rest of the kernel. -/
inductive MlfqInput where
  | mlfq
  | update (pid : ℤ) (tran : StateTransition) (timeUnits : ℤ)
  | change (procSet : ProcSet) (currProcIdx : Slot)

section Runs

variable (F : Queue Slot) (pid2idx : ProcSet → ℤ → Option Slot)

/-- One step; `mlfq` puts out the pid it returns. -/
def mlfqStep (m : Mlfq F.Carrier) : MlfqInput → Option (Mlfq F.Carrier × Option ℤ)
  | .mlfq => (mlfq F pid2idx m).map fun p => (p.1, some p.2)
  | .update pid tran timeUnits => (mlfqUpdate F pid2idx m pid tran timeUnits).map fun m => (m, none)
  | .change procSet currProcIdx =>
    some ({ m with procSet := procSet, currProcIdx := currProcIdx }, none)

/-- The pid of a slot changes only while the slot is in no queue. -/
def PidsKept (m : Mlfq F.Carrier) : MlfqInput → Prop
  | .change procSet _ => ∀ i ∈ m.queued F, (procSet i).pid = (m.procSet i).pid
  | _ => True

instance (m : Mlfq F.Carrier) : (i : MlfqInput) → Decidable (PidsKept F m i)
  | .change procSet _ =>
    inferInstanceAs (Decidable (∀ i ∈ m.queued F, (procSet i).pid = (m.procSet i).pid))
  | .mlfq => isTrue trivial
  | .update .. => isTrue trivial

variable {F pid2idx} {m m' : Mlfq F.Carrier}

/-- `mlfq_update` initialises the queues at its first call, and keeps the discipline. -/
theorem disciplined_mlfqUpdate (hidx : Translates pid2idx)
    (h : m.initialized = true → Disciplined m) {pid timeUnits : ℤ} {tran : StateTransition}
    (hm : mlfqUpdate F pid2idx m pid tran timeUnits = some m') : Disciplined m' := by
  unfold mlfqUpdate at hm
  dsimp only at hm
  generalize hstart :
    (if m.initialized = true then m else { mlfqInit F m with initialized := true }) = m₁ at hm
  have h₁ : Disciplined m₁ := by
    rw [← hstart]
    split_ifs with hinit
    · exact h hinit
    · have hempty : Disciplined (mlfqInit F m) := disciplined_init
      exact ⟨hempty.nodup, hempty.user⟩
  cases tran with
  | onArrive => exact h₁.enqueuePid hidx hm
  | onSchedIn => exact h₁.removePid hm
  | onSchedOut => exact h₁.enqueuePid hidx hm
  | onStop => exact h₁.removePid hm
  | onSleep =>
    obtain rfl := Option.some.inj hm
    exact h₁

/-- A call of `mlfq` does not initialise. -/
theorem initialized_mlfq {r : ℤ} (h : mlfq F pid2idx m = some (m', r)) :
    m'.initialized = m.initialized := by
  have hrm {m₁ m₂ : Mlfq F.Carrier} {pid : ℤ} (h : removePid F pid2idx m₁ pid = some m₂) :
      m₂.initialized = m₁.initialized := by
    obtain ⟨i, -, rfl⟩ := removePid_eq_some h
    rfl
  obtain ⟨m₁, hfirst, hrest⟩ := mlfq_eq_some h
  have h₁ : m₁.initialized = m.initialized := by
    rcases hfirst with ⟨-, h⟩ | ⟨-, rfl⟩
    · exact hrm h
    · rfl
  have hpick := (pickNextPid_frame (F := F) (m := m₁)).2.2
  rcases hrest with ⟨-, rfl, -⟩ | ⟨-, -, hlast⟩
  · rw [hpick, h₁]
  · split_ifs at hlast
    · obtain ⟨i, -, ⟨-, rfl⟩ | ⟨l, -, rfl, -⟩⟩ := enqueuePid_eq_some hlast
      · exact hpick.trans h₁
      · cases l <;> exact hpick.trans h₁
    · rw [hlast, hpick, h₁]

/-- One step keeps the discipline of initialised queues. -/
theorem disciplined_step (hidx : Translates pid2idx) {i : MlfqInput} {o : Option ℤ}
    (h : m.initialized = true → Disciplined m) (hC : PidsKept F m i)
    (hs : mlfqStep F pid2idx m i = some (m', o)) : m'.initialized = true → Disciplined m' := by
  intro hinit
  cases i with
  | mlfq =>
    obtain ⟨⟨m₁, r⟩, hm, heq⟩ := Option.map_eq_some_iff.mp hs
    obtain ⟨rfl, -⟩ := Prod.mk.inj heq
    rw [initialized_mlfq hm] at hinit
    exact (h hinit).mlfq hidx hm
  | update pid tran timeUnits =>
    obtain ⟨m₁, hm, heq⟩ := Option.map_eq_some_iff.mp hs
    obtain ⟨rfl, -⟩ := Prod.mk.inj heq
    exact disciplined_mlfqUpdate hidx h hm
  | change procSet currProcIdx =>
    obtain ⟨rfl, -⟩ := Prod.mk.inj (Option.some.inj hs)
    have hold := h hinit
    refine ⟨hold.nodup, fun l hl i hi => ?_⟩
    have hkept : (procSet i).pid = (m.procSet i).pid := hC i (mem_queued.mpr ⟨l, hi⟩)
    show USER_PID_START ≤ (procSet i).pid
    rw [hkept]
    exact hold.user l hl i hi

/-- **The discipline of the queues.**  In every run, whatever the queues hold before the first
`mlfq_update` initialises them: from then on every slot is in the three queues together at most
once, and every queued system process is in the highest queue. -/
theorem queued_once_and_system_high (hidx : Translates pid2idx) {m₀ : Mlfq F.Carrier}
    (h0 : m₀.initialized = false) {is : List MlfqInput} {os : List (Option ℤ)}
    (hrun : Run (mlfqStep F pid2idx) (PidsKept F) m₀ is os m) (hinit : m.initialized = true) :
    (∀ i, (m.queued F).count i ≤ 1) ∧
      ∀ i ∈ m.queued F, (m.procSet i).pid < USER_PID_START → i ∈ m.level F .high := by
  have hdisc : Disciplined m :=
    hrun.invariant (P := fun _ m => m.initialized = true → Disciplined m)
      (fun _ _ _ _ _ h hC hs => disciplined_step hidx h hC hs) (by simp [h0]) hinit
  refine ⟨fun i => List.nodup_iff_count_le_one.mp hdisc.nodup i, fun i hi hsys => ?_⟩
  obtain ⟨l, hi⟩ := mem_queued.mp hi
  by_cases hl : l = .high
  · exact hl ▸ hi
  · exact absurd (hdisc.user l hl i hi) (not_le.mpr hsys)

/-! ### A system process and a user process -/

/-- `pid2idx`, as a search of the table. -/
def searchPid (ps : ProcSet) (pid : ℤ) : Option Slot :=
  (List.finRange (MAX_NPROCESS + 1)).find? fun i => (ps i).pid = pid

theorem translates_searchPid : Translates searchPid := by
  intro ps pid i h
  simpa using List.find?_some h

/-- Slot 1 holds the system process 1 and slot 2 the user process 7, which has used up its quantum
twice; the other slots are unused. -/
def twoProcesses (status : ProcStatus) : ProcSet := fun i =>
  if i = 1 then ⟨1, .runnable, 20000000⟩
  else if i = 2 then ⟨7, status, 20000000⟩
  else ⟨0, .unused, 0⟩

/-- Before the first call of `mlfq_update`. -/
def booted (ps : ProcSet) : Mlfq (List Slot) := ⟨[], [], [], false, ps, 0⟩

theorem queued_once_and_system_high_two :
    ∃ os m, Run (mlfqStep (Queue.list Slot) searchPid) (PidsKept (Queue.list Slot))
        (booted (twoProcesses .ready))
        [.update 1 .onArrive 0, .update 7 .onArrive 0, .change (twoProcesses .runnable) 2, .mlfq]
        os m ∧ os.getLast? = some (some 1) ∧ m.qLow = [2] ∧
      ∀ i, (m.queued (Queue.list Slot)).count i ≤ 1 := by
  have hexec : ((exec (guarded (mlfqStep (Queue.list Slot) searchPid)
      (PidsKept (Queue.list Slot))) (booted (twoProcesses .ready))
      [.update 1 .onArrive 0, .update 7 .onArrive 0, .change (twoProcesses .runnable) 2,
        .mlfq]).map fun r => (r.2.getLast?, (r.1.qLow : List Slot), r.1.initialized)) =
      some (some (some 1), [2], true) := by decide +kernel
  obtain ⟨⟨m, os⟩, hr, hval⟩ := Option.map_eq_some_iff.mp hexec
  obtain ⟨hlast, hqueue⟩ := Prod.mk.inj hval
  obtain ⟨hlow, hinit⟩ := Prod.mk.inj hqueue
  have hrun := run_of_exec_guarded hr
  exact ⟨os, m, hrun, hlast, hlow,
    (queued_once_and_system_high translates_searchPid rfl hrun hinit).1⟩

end Runs

end Grass
end EgosNet
