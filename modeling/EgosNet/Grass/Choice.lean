import EgosNet.Grass.Keeping

/-!
# Which process `mlfq` chooses, and the order it leaves

`dequeue_runnable` turns the queue as it looks: every slot that is not runnable goes to the back,
and the scan stops at the first one that is.  A queue that was scanned in vain has gone through a
full turn and is as it was; a queue in which something was found is left turned to the place of the
find.  So the choice is the first runnable slot of the highest level that has one, and the order of
everything else follows from where it stood.

The levels that are scanned are those *after* the current process has been taken out, and a current
process that is ready or runnable comes back only after the choice, at the tail of its level.

* `Mlfq.taken`: the levels after the current process has been taken out.
* `mlfq_chooses_first`: the choice, and the exact contents of the three levels after the call.
-/

namespace EgosNet
namespace Grass

open Foundation

section Choice

variable {F : Queue Slot} {pid2idx : ProcSet → ℤ → Option Slot} {m m' : Mlfq F.Carrier}
  {l : Level} {r : ℤ}

/-- A level after the current process has been taken out, which `mlfq` does if it is live. -/
def Mlfq.taken (m : Mlfq F.Carrier) (l : Level) : List Slot :=
  if m.currStatus.isLive then (m.level F l).erase m.currProcIdx else m.level F l

theorem notMem_taken (hnodup : (m.queued F).Nodup) (hrun : m.currStatus.isRunnable = true) :
    m.currProcIdx ∉ m.taken l := by
  rw [Mlfq.taken, if_pos (isLive_of_isRunnable hrun), ← level_rmSlot hnodup]
  exact notMem_level_rmSlot hnodup

/-- The state in which `mlfq` chooses. -/
theorem level_first {m₁ : Mlfq F.Carrier} (hnodup : (m.queued F).Nodup)
    (hidx : m.currStatus.isLive = true → pid2idx m.procSet m.currPid = some m.currProcIdx)
    (hfirst : (m.currStatus.isLive = true ∧ removePid F pid2idx m m.currPid = some m₁) ∨
      (m.currStatus.isLive = false ∧ m₁ = m)) : m₁.level F = m.taken := by
  funext l
  rcases hfirst with ⟨hlive, hrm⟩ | ⟨hlive, rfl⟩
  · obtain ⟨j, hj, rfl⟩ := removePid_eq_some hrm
    obtain rfl : m.currProcIdx = j := Option.some.inj ((hidx hlive).symm.trans hj)
    rw [level_rmSlot hnodup, Mlfq.taken, if_pos hlive]
  · rw [Mlfq.taken, if_neg (by simp [hlive])]

/-- The current process comes back at the tail of the level that `level_for_pid` selects. -/
theorem level_enqueuePid_current (hnodup : (m'.queued F).Nodup) {m₂ : Mlfq F.Carrier}
    (hps : m'.procSet = m.procSet)
    (hidx : pid2idx m.procSet m.currPid = some m.currProcIdx)
    (hrun : m.currStatus.isRunnable = true) (hout : ∀ l, m.currProcIdx ∉ m'.level F l)
    (h : enqueuePid F pid2idx m' m.currPid = some m₂) :
    m₂.level F l = m'.level F l ++
      if levelForPid pid2idx m.procSet m.currPid = some l.number then [m.currProcIdx] else [] := by
  obtain ⟨j, hj, hcases⟩ := enqueuePid_eq_some h
  rw [hps] at hj hcases
  obtain rfl : m.currProcIdx = j := Option.some.inj (hidx.symm.trans hj)
  rcases hcases with ⟨hunused, -⟩ | ⟨l₀, -, rfl, hl₀⟩
  · have hst : m.currStatus = .unused := hunused
    rw [hst] at hrun
    exact absurd hrun (by decide)
  · rw [level_push, level_rmSlot hnodup, List.erase_of_not_mem (hout l), hl₀]
    have hnumber : l = l₀ ↔ some l₀.number = some l.number := by
      cases l <;> cases l₀ <;> simp [Level.number]
    simp only [hnumber]

/-- What `mlfq` does with the current process at its end. -/
theorem level_requeue (hnodup : (m'.queued F).Nodup) {m₂ : Mlfq F.Carrier}
    (hps : m'.procSet = m.procSet)
    (hidx : m.currStatus.isLive = true → pid2idx m.procSet m.currPid = some m.currProcIdx)
    (hout : m.currStatus.isRunnable = true → ∀ l, m.currProcIdx ∉ m'.level F l)
    (h : if m.currStatus.isRunnable = true then enqueuePid F pid2idx m' m.currPid = some m₂
      else m₂ = m') :
    m₂.level F l = m'.level F l ++
      if m.currStatus.isRunnable = true ∧
        levelForPid pid2idx m.procSet m.currPid = some l.number then [m.currProcIdx] else [] := by
  split_ifs at h with hrun
  · rw [level_enqueuePid_current hnodup hps (hidx (isLive_of_isRunnable hrun)) hrun (hout hrun) h]
    simp only [hrun, true_and]
  · rw [h]
    simp [hrun]

/-- **The choice of `mlfq`.**  The call returns.  If a level has a runnable process --- the current
one taken out ---, the result is the pid of the first one of the highest such level; that level is
left as what was behind it followed by what was skipped, the other levels are left as they were, and
then a current process that is ready or runnable is appended to the level that `level_for_pid`
selects.  If no level has one, the levels are left as they were without the current process. -/
theorem mlfq_chooses_first (hnodup : (m.queued F).Nodup)
    (hpid : ∀ i ∈ m.queued F, (m.procSet i).pid ≠ 0)
    (hidx : m.currStatus.isLive = true → pid2idx m.procSet m.currPid = some m.currProcIdx) :
    ∃ m' r, mlfq F pid2idx m = some (m', r) ∧
      ((∃ l, ∃ y ∈ m.taken l, (m.procSet y).status.isRunnable = true) →
        ∃ l skipped x rest, Chosen m.procSet m.taken l skipped x rest ∧ r = (m.procSet x).pid ∧
          ∀ l', m'.level F l' = (if l' = l then rest ++ skipped else m.taken l') ++
            if m.currStatus.isRunnable = true ∧
              levelForPid pid2idx m.procSet m.currPid = some l'.number then [m.currProcIdx]
            else []) ∧
      ((∀ l, ∀ y ∈ m.taken l, (m.procSet y).status.isRunnable = false) →
        ∀ l, m'.level F l = m.taken l) := by
  obtain ⟨m', r, hm⟩ := exists_mlfq (F := F) hidx
  refine ⟨m', r, hm, ?_⟩
  obtain ⟨m₁, hfirst, hrest⟩ := mlfq_eq_some hm
  obtain ⟨hnodup₁, hps, hmem⟩ := mem_level_first hnodup hidx hfirst
  have htaken := level_first hnodup hidx hfirst
  have hpid₁ : ∀ i ∈ m₁.queued F, (m₁.procSet i).pid ≠ 0 := by
    intro i hi
    obtain ⟨l, hi⟩ := mem_queued.mp hi
    rw [hps]
    exact hpid i (mem_queued.mpr ⟨l, ((hmem l i).mp hi).2⟩)
  rcases pickNextPid_chosen hpid₁ with ⟨l, a, x, b, hc, hnext, hlevel⟩ | ⟨hnone, hnext, hlevel⟩
  · have hx : x ∈ m₁.level F l := by simp [hc.split]
    have hne : (pickNextPid F m₁).1 ≠ 0 := by
      rw [hnext]
      exact hpid₁ x (mem_queued.mpr ⟨l, hx⟩)
    rw [htaken, hps] at hc
    rw [htaken] at hlevel
    obtain ⟨hr, hlast⟩ : r = (pickNextPid F m₁).1 ∧
        if m.currStatus = .ready ∨ m.currStatus = .runnable then
          enqueuePid F pid2idx (pickNextPid F m₁).2 m.currPid = some m'
        else m' = (pickNextPid F m₁).2 := by
      rcases hrest with ⟨h0, -, -⟩ | ⟨-, hr, hlast⟩
      · exact absurd h0 hne
      · exact ⟨hr, hlast⟩
    have hfound : ∃ l, ∃ y ∈ m.taken l, (m.procSet y).status.isRunnable = true :=
      ⟨l, x, by simp [hc.split], hc.runnable⟩
    refine ⟨fun _ => ⟨l, a, x, b, hc, by rw [hr, hnext, hps], fun l' => ?_⟩, fun hnone => ?_⟩
    · simp only [← isRunnable_iff] at hlast
      have hnodup₂ : ((pickNextPid F m₁).2.queued F).Nodup :=
        nodup_queued_of_subperm hnodup₁ fun _ => level_pickNextPid_subperm
      have hout : m.currStatus.isRunnable = true →
          ∀ k, m.currProcIdx ∉ (pickNextPid F m₁).2.level F k := by
        intro hready k hk
        have hbefore := level_pickNextPid_subperm.subset hk
        rw [htaken] at hbefore
        exact notMem_taken hnodup hready hbefore
      rw [level_requeue hnodup₂ (pickNextPid_frame.1.trans hps) hidx hout hlast, hlevel]
    · obtain ⟨k, y, hy, hrun⟩ := hfound
      rw [hnone k y hy] at hrun
      exact absurd hrun (by decide)
  · rw [htaken, hps] at hnone
    rw [htaken] at hlevel
    refine ⟨?_, fun _ l => ?_⟩
    · rintro ⟨k, y, hy, hrun⟩
      rw [hnone k y hy] at hrun
      exact absurd hrun (by decide)
    · rcases hrest with ⟨-, rfl, -⟩ | ⟨hne, -, -⟩
      · exact hlevel l
      · exact absurd hnext hne

theorem mlfq_chooses_first_mixed :
    ∃ m' r, mlfq (Queue.list Slot) findsSeven mixed = some (m', r) ∧
      ∃ l skipped x rest,
        Chosen mixed.procSet (mixed.taken (F := Queue.list Slot)) l skipped x rest ∧
          r = (mixed.procSet x).pid := by
  obtain ⟨m', r, hm, hfound, -⟩ := mlfq_chooses_first (F := Queue.list Slot) (m := mixed)
    (by decide) (by decide) (fun _ => show findsSeven _ _ = some 1 by decide)
  obtain ⟨l, a, x, b, hc, hr, -⟩ := hfound ⟨.mid, 3, by decide, by decide⟩
  exact ⟨m', r, hm, l, a, x, b, hc, hr⟩

/-- The process after the choice is first, then the one that was skipped, and the current process is
at the tail of its own level. -/
example : (mlfq (Queue.list Slot) findsSeven mixed).map
    (fun p => (p.1.level (Queue.list Slot) .high, p.1.level (Queue.list Slot) .mid, p.2)) =
      some ([1], [4, 2], 9) := by
  decide

end Choice

end Grass
end EgosNet
