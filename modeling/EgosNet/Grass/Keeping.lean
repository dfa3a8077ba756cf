import EgosNet.Grass.Mlfq

/-!
# When a call of `mlfq` loses no process

`mlfq` takes the current process out of the queues before it chooses, and puts it back on one of its
return paths only.  Its three tests on the status of the current process list three different sets
of states: *running, runnable, ready* to take it out, *running, runnable* to let it continue when
nothing else is runnable, *ready, runnable* to put it back when something else is.  A current
process that is ready falls through the second test.  If nothing else is runnable it has been taken
out, is not returned, and is not put back: the call answers that nothing is runnable, and the
process is in no queue.

The only other way to answer zero with something runnable is a current process whose pid is zero.

* `KeepsAll`: what a call has to keep.
* `Keeping`: something else is runnable, or the current process is neither of the two cases.
* `mlfq_keepsAll_iff`: a call keeps everything exactly then.
-/

namespace EgosNet
namespace Grass

open Foundation

section Keeping

variable {F : Queue Slot} {pid2idx : ProcSet → ℤ → Option Slot} {m m' : Mlfq F.Carrier}
  {i j : Slot} {l : Level} {r : ℤ}

/-- What a call of `mlfq` that leads from `m` to `m'` and returns `r` has to keep.  Every queued
process but the current one and the returned one is in one queue afterwards, the one it was in; a
current process that is ready or runnable and not returned is in one queue; and `r` is zero only if
nothing is runnable. -/
structure KeepsAll (m m' : Mlfq F.Carrier) (r : ℤ) : Prop where
  others : ∀ l, ∀ i ∈ m.level F l, i ≠ m.currProcIdx → (m.procSet i).pid ≠ r →
    i ∈ m'.level F l ∧ (m'.queued F).count i = 1
  current : m.currStatus.isRunnable = true → m.currPid ≠ r →
    (m'.queued F).count m.currProcIdx = 1
  zero : r = 0 → (∀ i ∈ m.queued F, (m.procSet i).status.isRunnable = false) ∧
    m.currStatus.isLive = false

/-- Another queued process is runnable; or the current process is not ready, and does not run under
the pid zero. -/
def Keeping (m : Mlfq F.Carrier) : Prop :=
  (∃ i ∈ m.queued F, i ≠ m.currProcIdx ∧ (m.procSet i).status.isRunnable = true) ∨
    ¬ (m.currStatus = .ready ∨
      m.currPid = 0 ∧ (m.currStatus = .running ∨ m.currStatus = .runnable))

/-- `mlfq` returns when `pid2idx` finds the current process, or does not have to. -/
theorem exists_mlfq
    (hidx : m.currStatus.isLive = true → pid2idx m.procSet m.currPid = some m.currProcIdx) :
    ∃ m' r, mlfq F pid2idx m = some (m', r) := by
  obtain ⟨m₁, hfirst, hps, hcurr⟩ : ∃ m₁,
      (if m.currStatus.isLive = true then removePid F pid2idx m m.currPid else some m) = some m₁ ∧
        m₁.procSet = m.procSet ∧ m₁.currProcIdx = m.currProcIdx := by
    split_ifs with hlive
    · refine ⟨m.rmSlot F m.currProcIdx, ?_, rfl, rfl⟩
      unfold removePid
      rw [hidx hlive]
    · exact ⟨m, rfl, rfl, rfl⟩
  -- neither taking the current process out nor the choice changes the process table
  obtain ⟨hps', hcurr', -⟩ := pickNextPid_frame (F := F) (m := m₁)
  have hstatus : (pickNextPid F m₁).2.currStatus = m.currStatus := by
    rw [Mlfq.currStatus, hps', hcurr', hps, hcurr, Mlfq.currStatus]
  have hpid : (pickNextPid F m₁).2.currPid = m.currPid := by
    rw [Mlfq.currPid, hps', hcurr', hps, hcurr, Mlfq.currPid]
  unfold mlfq
  rw [hfirst]
  dsimp only
  rw [hstatus, hpid]
  split_ifs with hzero hrun hready
  · exact ⟨_, _, rfl⟩
  · exact ⟨_, _, rfl⟩
  · have hlive : m.currStatus.isLive = true := by
      rcases hready with h | h <;> rw [h] <;> rfl
    have hfind : pid2idx (pickNextPid F m₁).2.procSet m.currPid = some m.currProcIdx := by
      rw [hps', hps]
      exact hidx hlive
    obtain ⟨m₂, hm₂⟩ := exists_enqueuePid (F := F) hfind
    rw [hm₂]
    exact ⟨_, _, rfl⟩
  · exact ⟨_, _, rfl⟩

/-- The queues after the current process has been taken out, if it is live. -/
theorem mem_level_first {m₁ : Mlfq F.Carrier} (hnodup : (m.queued F).Nodup)
    (hidx : m.currStatus.isLive = true → pid2idx m.procSet m.currPid = some m.currProcIdx)
    (hfirst : (m.currStatus.isLive = true ∧ removePid F pid2idx m m.currPid = some m₁) ∨
      (m.currStatus.isLive = false ∧ m₁ = m)) :
    (m₁.queued F).Nodup ∧ m₁.procSet = m.procSet ∧ ∀ l i,
      i ∈ m₁.level F l ↔ (m.currStatus.isLive = true → i ≠ m.currProcIdx) ∧ i ∈ m.level F l := by
  rcases hfirst with ⟨hlive, hrm⟩ | ⟨hlive, rfl⟩
  · obtain ⟨j, hj, rfl⟩ := removePid_eq_some hrm
    obtain rfl : m.currProcIdx = j := Option.some.inj ((hidx hlive).symm.trans hj)
    refine ⟨nodup_rmSlot hnodup, rfl, fun l i => ?_⟩
    rw [mem_level_rmSlot hnodup]
    simp [hlive]
  · exact ⟨hnodup, rfl, fun l i => by simp [hlive]⟩

theorem isLive_of_isRunnable {st : ProcStatus} (h : st.isRunnable = true) : st.isLive = true := by
  cases st <;> first | rfl | exact absurd h (by decide)

theorem isRunnable_iff {st : ProcStatus} :
    st.isRunnable = true ↔ st = .ready ∨ st = .runnable := by
  cases st <;> decide

theorem isLive_iff {st : ProcStatus} :
    st.isLive = true ↔ st = .ready ∨ st = .running ∨ st = .runnable := by
  cases st <;> decide

/-- Something else was chosen: the call keeps everything. -/
theorem keepsAll_of_found {m₁ : Mlfq F.Carrier} {x : Slot} (hnodup₁ : (m₁.queued F).Nodup)
    (hps : m₁.procSet = m.procSet)
    (hmem : ∀ l i, i ∈ m₁.level F l ↔
      (m.currStatus.isLive = true → i ≠ m.currProcIdx) ∧ i ∈ m.level F l)
    (hidx : m.currStatus.isLive = true → pid2idx m.procSet m.currPid = some m.currProcIdx)
    (hx : (m.procSet x).pid = r) (hr : r ≠ 0)
    (hkeep : ∀ l, ∀ i ∈ m₁.level F l, i ≠ x → i ∈ (pickNextPid F m₁).2.level F l)
    (hlast : if m.currStatus = .ready ∨ m.currStatus = .runnable then
        enqueuePid F pid2idx (pickNextPid F m₁).2 m.currPid = some m'
      else m' = (pickNextPid F m₁).2) : KeepsAll m m' r := by
  have hnodup₂ : ((pickNextPid F m₁).2.queued F).Nodup :=
    nodup_queued_of_subperm hnodup₁ fun _ => level_pickNextPid_subperm
  have hps₂ : (pickNextPid F m₁).2.procSet = m.procSet := pickNextPid_frame.1.trans hps
  have hkept : ∀ l, ∀ i ∈ m.level F l, i ≠ m.currProcIdx → (m.procSet i).pid ≠ r →
      i ∈ (pickNextPid F m₁).2.level F l := by
    intro l i hi hcurr hpid
    refine hkeep l i ((hmem l i).mpr ⟨fun _ => hcurr, hi⟩) ?_
    rintro rfl
    exact hpid hx
  split_ifs at hlast with hready
  · obtain ⟨j, hj, hcases⟩ := enqueuePid_eq_some hlast
    rw [hps₂] at hj
    have hlive := isLive_of_isRunnable (isRunnable_iff.mpr hready)
    obtain rfl : m.currProcIdx = j := Option.some.inj ((hidx hlive).symm.trans hj)
    rw [hps₂] at hcases
    have hused : (m.procSet m.currProcIdx).status ≠ .unused := by
      intro hun
      have hcs : m.currStatus = .unused := hun
      rw [hcs] at hready
      exact absurd hready (by simp)
    obtain ⟨l₀, rfl⟩ : ∃ l₀, m' = ((pickNextPid F m₁).2.rmSlot F m.currProcIdx).push F l₀
        m.currProcIdx := by
      rcases hcases with ⟨hun, -⟩ | ⟨l₀, -, hm', -⟩
      · exact absurd hun hused
      · exact ⟨l₀, hm'⟩
    have hnodup' := nodup_push (l := l₀) (nodup_rmSlot (i := m.currProcIdx) hnodup₂)
      fun l => notMem_level_rmSlot hnodup₂
    refine ⟨fun l i hi hcurr hpid => ?_, fun _ _ => ?_, fun h0 => absurd h0 hr⟩
    · have hi' : i ∈ (((pickNextPid F m₁).2.rmSlot F m.currProcIdx).push F l₀
          m.currProcIdx).level F l := by
        rw [level_push, List.mem_append]
        exact Or.inl ((mem_level_rmSlot hnodup₂).mpr ⟨hcurr, hkept l i hi hcurr hpid⟩)
      exact ⟨hi', List.count_eq_one_of_mem hnodup' (mem_queued.mpr ⟨l, hi'⟩)⟩
    · refine List.count_eq_one_of_mem hnodup' (mem_queued.mpr ⟨l₀, ?_⟩)
      rw [level_push, if_pos rfl]
      exact List.mem_append_right _ (List.mem_singleton_self _)
  · subst hlast
    refine ⟨fun l i hi hcurr hpid => ?_, fun hrun => ?_, fun h0 => absurd h0 hr⟩
    · have hi' := hkept l i hi hcurr hpid
      exact ⟨hi', List.count_eq_one_of_mem hnodup₂ (mem_queued.mpr ⟨l, hi'⟩)⟩
    · exact absurd (isRunnable_iff.mp hrun) hready

/-- Nothing else was runnable: the call keeps everything unless the current process is ready, or
runs under the pid zero. -/
theorem keepsAll_iff_of_none {m₁ : Mlfq F.Carrier} (hnodup₁ : (m₁.queued F).Nodup)
    (hmem : ∀ l i, i ∈ m₁.level F l ↔
      (m.currStatus.isLive = true → i ≠ m.currProcIdx) ∧ i ∈ m.level F l)
    (hnone : ∀ i ∈ m.queued F, i ≠ m.currProcIdx → (m.procSet i).status.isRunnable = false)
    (hsame : ∀ l, m'.level F l = m₁.level F l)
    (hr : r = if m.currStatus = .running ∨ m.currStatus = .runnable then m.currPid else 0) :
    KeepsAll m m' r ↔ ¬ (m.currStatus = .ready ∨
      m.currPid = 0 ∧ (m.currStatus = .running ∨ m.currStatus = .runnable)) := by
  constructor
  · rintro h (hready | ⟨hpid, hrun⟩)
    · have h0 : r = 0 := by rw [hr, hready]; rfl
      have hdead := (h.zero h0).2
      rw [hready] at hdead
      exact absurd hdead (by decide)
    · have h0 : r = 0 := by rw [hr, if_pos hrun, hpid]
      have hdead := (h.zero h0).2
      rw [isLive_iff.mpr (Or.inr hrun)] at hdead
      exact absurd hdead (by decide)
  · intro h
    push Not at h
    have hnodup' : (m'.queued F).Nodup := by
      rw [Mlfq.queued, hsame, hsame, hsame]
      exact hnodup₁
    refine ⟨fun l i hi hcurr _ => ?_, fun hrun hpid => ?_, fun h0 => ?_⟩
    · have hi' : i ∈ m'.level F l := by
        rw [hsame, hmem]
        exact ⟨fun _ => hcurr, hi⟩
      exact ⟨hi', List.count_eq_one_of_mem hnodup' (mem_queued.mpr ⟨l, hi'⟩)⟩
    · -- a current process that is ready is excluded, and one that is runnable was returned
      rcases isRunnable_iff.mp hrun with hready | hrunnable
      · exact absurd hready h.1
      · rw [if_pos (Or.inr hrunnable)] at hr
        exact absurd hr.symm hpid
    · have hdead : m.currStatus.isLive = false := by
        by_contra hlive
        rcases isLive_iff.mp (by simpa using hlive) with hready | hrun
        · exact h.1 hready
        · rw [if_pos hrun] at hr
          rcases hrun with hrun | hrun
          · exact (h.2 (hr.symm.trans h0)).1 hrun
          · exact (h.2 (hr.symm.trans h0)).2 hrun
      refine ⟨fun i hi => ?_, hdead⟩
      by_cases hcurr : i = m.currProcIdx
      · subst hcurr
        by_contra hrun
        have hlive := isLive_of_isRunnable (by simpa using hrun)
        exact absurd hdead (by rw [Mlfq.currStatus, hlive]; decide)
      · exact hnone i hi hcurr

/-- **A call of `mlfq` loses no process exactly when another queued process is runnable, or the
current process is neither ready nor running under the pid zero.**  Of `pid2idx` no more is asked
than that it finds the current process, if `mlfq` calls it at all. -/
theorem mlfq_keepsAll_iff (hnodup : (m.queued F).Nodup)
    (hpid : ∀ i ∈ m.queued F, (m.procSet i).pid ≠ 0)
    (hidx : m.currStatus.isLive = true → pid2idx m.procSet m.currPid = some m.currProcIdx) :
    ∃ m' r, mlfq F pid2idx m = some (m', r) ∧ (KeepsAll m m' r ↔ Keeping m) := by
  obtain ⟨m', r, hm⟩ := exists_mlfq (F := F) hidx
  refine ⟨m', r, hm, ?_⟩
  obtain ⟨m₁, hfirst, hrest⟩ := mlfq_eq_some hm
  obtain ⟨hnodup₁, hps, hmem⟩ := mem_level_first hnodup hidx hfirst
  have hsub {i : Slot} (hi : i ∈ m₁.queued F) : i ∈ m.queued F := by
    obtain ⟨l, hi⟩ := mem_queued.mp hi
    exact mem_queued.mpr ⟨l, ((hmem l i).mp hi).2⟩
  have hpid₁ : ∀ i ∈ m₁.queued F, (m₁.procSet i).pid ≠ 0 := by
    intro i hi
    rw [hps]
    exact hpid i (hsub hi)
  rcases pickNextPid_cases hpid₁ with ⟨x, hx, hrun, hnext, hkeep⟩ | ⟨hnone, hnext, hsame⟩
  · rw [hps] at hrun hnext
    have hne : (pickNextPid F m₁).1 ≠ 0 := by
      rw [hnext]
      exact hpid x (hsub hx)
    have hxcurr : x ≠ m.currProcIdx := by
      rintro rfl
      obtain ⟨l, hx⟩ := mem_queued.mp hx
      exact ((hmem l _).mp hx).1 (isLive_of_isRunnable hrun) rfl
    rcases hrest with ⟨h0, -, -⟩ | ⟨-, rfl, hlast⟩
    · exact absurd h0 hne
    · have hkeeps := keepsAll_of_found hnodup₁ hps hmem hidx hnext.symm hne hkeep hlast
      exact ⟨fun _ => Or.inl ⟨x, hsub hx, hxcurr, hrun⟩, fun _ => hkeeps⟩
  · have hnone' : ∀ i ∈ m.queued F, i ≠ m.currProcIdx →
        (m.procSet i).status.isRunnable = false := by
      intro i hi hcurr
      obtain ⟨l, hi⟩ := mem_queued.mp hi
      rw [← hps]
      exact hnone i (mem_queued.mpr ⟨l, (hmem l i).mpr ⟨fun _ => hcurr, hi⟩⟩)
    rcases hrest with ⟨-, rfl, hr⟩ | ⟨hne, -, -⟩
    · have hnothing : ¬ ∃ i ∈ m.queued F, i ≠ m.currProcIdx ∧
          (m.procSet i).status.isRunnable = true := by
        rintro ⟨i, hi, hcurr, hrun⟩
        rw [hnone' i hi hcurr] at hrun
        exact absurd hrun (by decide)
      exact (keepsAll_iff_of_none hnodup₁ hmem hnone' hsame hr).trans (or_iff_right hnothing).symm
    · exact absurd hnext hne

/-! ## Two full queues, and a ready process alone -/

/-- A `pid2idx` that finds pid 7 in slot 1. -/
def findsSeven (_ : ProcSet) (pid : ℤ) : Option Slot := if pid = 7 then some 1 else none

/-- Slot 1 is current and runnable, with pid 7; the level in the middle has the sleeping slot 2,
then the runnable slot 3, then the ready slot 4. -/
def mixed : Mlfq (List Slot) :=
  ⟨[], [2, 3, 4], [], true, fun i =>
    if i = 1 then ⟨7, .runnable, 0⟩ else if i = 2 then ⟨8, .sleeping, 0⟩
    else if i = 3 then ⟨9, .runnable, 0⟩ else if i = 4 then ⟨10, .ready, 0⟩
    else ⟨0, .unused, 0⟩, 1⟩

/-- Slot 1 is current and sleeps, with the pid 5 that `findsSeven` does not find; in the lowest
level slots 2 and 3 wait for system calls. -/
def asleep : Mlfq (List Slot) :=
  ⟨[], [], [2, 3], true, fun i =>
    if i = 1 then ⟨5, .sleeping, 0⟩
    else if i = 2 ∨ i = 3 then ⟨8, .pendingSyscall, 0⟩ else ⟨0, .unused, 0⟩, 1⟩

/-- Of the mixed queue one process is chosen, two are kept, and the current one is put back; the
queue of those that wait is kept, and zero is returned. -/
theorem mlfq_keepsAll_iff_mixed :
    (∃ m' r, mlfq (Queue.list Slot) findsSeven mixed = some (m', r) ∧
      (m'.level (Queue.list Slot) .high, m'.level (Queue.list Slot) .mid, r) = ([1], [4, 2], 9) ∧
      KeepsAll (F := Queue.list Slot) mixed m' r) ∧
    ∃ m' r, mlfq (Queue.list Slot) findsSeven asleep = some (m', r) ∧
      (m'.level (Queue.list Slot) .low, r) = ([2, 3], 0) ∧
      KeepsAll (F := Queue.list Slot) asleep m' r := by
  have hmixed : (mlfq (Queue.list Slot) findsSeven mixed).map (fun p =>
      (p.1.level (Queue.list Slot) .high, p.1.level (Queue.list Slot) .mid, p.2)) =
      some ([1], [4, 2], 9) := by decide
  have hasleep : (mlfq (Queue.list Slot) findsSeven asleep).map (fun p =>
      (p.1.level (Queue.list Slot) .low, p.2)) = some ([2, 3], 0) := by decide
  constructor
  · obtain ⟨m', r, hm, hiff⟩ := mlfq_keepsAll_iff (F := Queue.list Slot) (m := mixed)
      (by decide) (by decide) fun _ => show findsSeven _ _ = some 1 by decide
    rw [hm] at hmixed
    exact ⟨m', r, hm, Option.some.inj hmixed,
      hiff.mpr (Or.inl ⟨3, by decide, by decide, by decide⟩)⟩
  · obtain ⟨m', r, hm, hiff⟩ := mlfq_keepsAll_iff (F := Queue.list Slot) (m := asleep)
      (by decide) (by decide) fun hlive => absurd hlive (by decide)
    rw [hm] at hasleep
    exact ⟨m', r, hm, Option.some.inj hasleep, hiff.mpr (Or.inr (by decide))⟩

/-- Slot 1 is the current process, with pid 7 and the given status; nothing is queued. -/
def alone (status : ProcStatus) : Mlfq (List Slot) :=
  ⟨[], [], [], true, fun i => if i = 1 then ⟨7, status, 0⟩ else ⟨0, .unused, 0⟩, 1⟩

/-- **A ready process that is alone is lost**: the call returns zero, and the process is in no
queue. -/
theorem mlfq_loses_ready :
    ((alone .ready).queued (Queue.list Slot)).Nodup ∧
      (∀ i ∈ (alone .ready).queued (Queue.list Slot), ((alone .ready).procSet i).pid ≠ 0) ∧
      findsSeven (alone .ready).procSet (alone .ready).currPid = some (alone .ready).currProcIdx ∧
      (mlfq (Queue.list Slot) findsSeven (alone .ready)).map
        (fun p => (p.1.queued (Queue.list Slot), p.2)) = some ([], 0) ∧
      ∀ m' r, mlfq (Queue.list Slot) findsSeven (alone .ready) = some (m', r) →
        ¬ KeepsAll (F := Queue.list Slot) (alone .ready) m' r := by
  have hval : (mlfq (Queue.list Slot) findsSeven (alone .ready)).map
      (fun p => (p.1.queued (Queue.list Slot), p.2)) = some ([], 0) := by decide
  refine ⟨by decide, by decide, by decide, hval, fun m' r hm hkeeps => ?_⟩
  rw [hm] at hval
  obtain ⟨-, rfl⟩ := Prod.mk.inj (Option.some.inj hval)
  exact absurd (hkeeps.zero rfl).2 (by decide)

end Keeping

end Grass
end EgosNet
