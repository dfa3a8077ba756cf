import EgosNet.Grass.Choice
import EgosNet.Grass.Discipline

/-!
# How long a process waits

A queue is served from its head, and what comes back is put at its tail.  So a process that is
runnable and stays in its queue is overtaken by nobody: each call of `mlfq` that looks at the queue
takes out a process that stands before it.  How many calls that can be is written down in the queue
when the process enters it.

The condition is that `mlfq` does look at the queue, that is, that no level above has anything to
run.  For the highest level there is nothing above, so no process of the system and no process whose
CPU time is within the first quantum can be kept waiting.  For the other levels the condition is
real: nothing in `mlfq.c` ever moves a process up again.

* `idxOf_mlfq`: one call chooses the process, or brings it closer to the head.
* `chosen_within`: so the number of processes before it bounds the number of calls it waits.
-/

namespace EgosNet
namespace Grass

open Foundation

/-! ## Positions -/

section Positions

variable {α : Type*} [DecidableEq α] {x y : α} {l : List α}

/-- An element does not move back when another one is taken out. -/
theorem idxOf_erase_le (h : x ≠ y) : (l.erase y).idxOf x ≤ l.idxOf x := by
  induction l with
  | nil => simp
  | cons z l ih =>
    by_cases hz : z = y
    · subst hz
      rw [List.erase_cons_head, List.idxOf_cons_ne l h.symm]
      exact Nat.le_succ _
    · rw [List.erase_cons_tail (by simpa using hz)]
      by_cases hx : z = x
      · subst hx
        rw [List.idxOf_cons_self]
        exact Nat.zero_le _
      · rw [List.idxOf_cons_ne _ hx, List.idxOf_cons_ne _ hx]
        exact Nat.succ_le_succ ih

/-- What is behind an element moves up when it and all before it are taken away. -/
theorem idxOf_behind_lt {a b : List α} (ha : x ∉ a) (hy : y ≠ x) :
    b.idxOf x < (a ++ y :: b).idxOf x := by
  rw [List.idxOf_append_of_notMem ha, List.idxOf_cons_ne b hy]
  omega

end Positions

section Waiting

variable {F : Queue Slot} {pid2idx : ProcSet → ℤ → Option Slot} {m m' : Mlfq F.Carrier}
  {p i : Slot} {l : Level} {r pid : ℤ}

/-- No level above has a process to run, other than the current one. -/
def NothingAbove (m : Mlfq F.Carrier) (l : Level) : Prop :=
  ∀ l', l'.number < l.number → ∀ y ∈ m.level F l', y ≠ m.currProcIdx →
    (m.procSet y).status.isRunnable = false

/-- The highest level has nothing above it. -/
theorem nothingAbove_high (m : Mlfq F.Carrier) : NothingAbove m .high :=
  fun _ hl' => absurd hl' (Nat.not_lt_zero _)

/-- A slot that is found runnable with the current process out of the way is not the current one. -/
theorem ne_current_of_taken {x : Slot} (hnodup : (m.queued F).Nodup) (hx : x ∈ m.taken l)
    (hrun : (m.procSet x).status.isRunnable = true) : x ≠ m.currProcIdx ∧ x ∈ m.level F l := by
  constructor
  · rintro rfl
    exact notMem_taken hnodup hrun hx
  · unfold Mlfq.taken at hx
    split_ifs at hx
    · exact List.mem_of_mem_erase hx
    · exact hx

/-- The level that is chosen from is that of the process, when it is runnable and no level above has
a process to run. -/
theorem level_chosen {l₀ : Level} {a b : List Slot} {x : Slot} (hnodup : (m.queued F).Nodup)
    (hp : p ∈ m.taken l) (hrun : (m.procSet p).status.isRunnable = true)
    (habove : NothingAbove m l) (hc : Chosen m.procSet m.taken l₀ a x b) : l₀ = l := by
  have hlow : ¬ l₀.number < l.number := by
    intro hlt
    have hx : x ∈ m.taken l₀ := by simp [hc.split]
    obtain ⟨hne, hmem⟩ := ne_current_of_taken hnodup hx hc.runnable
    have hnot := habove l₀ hlt x hmem hne
    rw [hc.runnable] at hnot
    exact absurd hnot (by decide)
  have hhigh : ¬ l.number < l₀.number := by
    intro hlt
    have hnot := hc.above l hlt p hp
    rw [hrun] at hnot
    exact absurd hnot (by decide)
  cases l <;> cases l₀ <;> simp [Level.number] at hlow hhigh ⊢

/-- **One call of `mlfq`** chooses a process that is runnable, or brings it closer to the head of
its queue. -/
theorem idxOf_mlfq (hnodup : (m.queued F).Nodup)
    (hpid : ∀ i ∈ m.queued F, (m.procSet i).pid ≠ 0)
    (hidx : m.currStatus.isLive = true → pid2idx m.procSet m.currPid = some m.currProcIdx)
    (hp : p ∈ m.level F l) (hrun : (m.procSet p).status.isRunnable = true)
    (hne : p ≠ m.currProcIdx) (habove : NothingAbove m l)
    (h : mlfq F pid2idx m = some (m', r)) :
    r = (m.procSet p).pid ∨
      p ∈ m'.level F l ∧ (m'.level F l).idxOf p < (m.level F l).idxOf p := by
  obtain ⟨m₁, hfirst, hrest⟩ := mlfq_eq_some h
  obtain ⟨hnodup₁, hps, hmem⟩ := mem_level_first hnodup hidx hfirst
  have htaken := level_first hnodup hidx hfirst
  have hpid₁ : ∀ i ∈ m₁.queued F, (m₁.procSet i).pid ≠ 0 := by
    intro i hi
    obtain ⟨k, hi⟩ := mem_queued.mp hi
    rw [hps]
    exact hpid i (mem_queued.mpr ⟨k, ((hmem k i).mp hi).2⟩)
  have hp₁ : p ∈ m.taken l := by
    rw [← htaken]
    exact (hmem l p).mpr ⟨fun _ => hne, hp⟩
  have hle : (m.taken l).idxOf p ≤ (m.level F l).idxOf p := by
    unfold Mlfq.taken
    split_ifs
    · exact idxOf_erase_le hne
    · exact le_refl _
  rcases pickNextPid_chosen hpid₁ with ⟨l₀, a, x, b, hc, hnext, hlevel⟩ | ⟨hnone, -, -⟩
  · have hx : (pickNextPid F m₁).1 ≠ 0 := by
      rw [hnext]
      exact hpid₁ x (mem_queued.mpr ⟨l₀, by simp [hc.split]⟩)
    rw [htaken, hps] at hc
    rw [htaken] at hlevel
    obtain rfl := level_chosen hnodup hp₁ hrun habove hc
    rcases hrest with ⟨hzero, -, -⟩ | ⟨-, hr, hlast⟩
    · exact absurd hzero hx
    by_cases hpx : x = p
    · subst hpx
      exact .inl (by rw [hr, hnext, hps])
    -- the process stands behind the choice, for what was skipped is not runnable
    have hskipped : p ∉ a := by
      intro ha
      have hnot := hc.before p ha
      rw [hrun] at hnot
      exact absurd hnot (by decide)
    have hbehind : p ∈ b := by
      rw [hc.split, List.mem_append, List.mem_cons] at hp₁
      rcases hp₁ with ha | rfl | hb
      · exact absurd ha hskipped
      · exact absurd rfl hpx
      · exact hb
    simp only [← isRunnable_iff] at hlast
    have hnodup₂ : ((pickNextPid F m₁).2.queued F).Nodup :=
      nodup_queued_of_subperm hnodup₁ fun _ => level_pickNextPid_subperm
    have hout : m.currStatus.isRunnable = true →
        ∀ k, m.currProcIdx ∉ (pickNextPid F m₁).2.level F k := by
      intro hready k hk
      have hbefore := level_pickNextPid_subperm.subset hk
      rw [htaken] at hbefore
      exact notMem_taken hnodup hready hbefore
    have hafter := level_requeue (l := l₀) hnodup₂ (pickNextPid_frame.1.trans hps) hidx hout hlast
    rw [hlevel, if_pos rfl] at hafter
    rw [hafter]
    refine .inr ⟨by simp [hbehind], ?_⟩
    rw [List.append_assoc, List.idxOf_append_of_mem hbehind]
    refine lt_of_lt_of_le ?_ hle
    rw [hc.split]
    exact idxOf_behind_lt hskipped hpx
  · rw [htaken, hps] at hnone
    have hnot := hnone l p hp₁
    rw [hrun] at hnot
    exact absurd hnot (by decide)

/-! ## Runs -/

/-- The process stands in its queue, no further back than at position `k`. -/
structure Stands (p : Slot) (l : Level) (k : ℕ) (m : Mlfq F.Carrier) : Prop where
  mem : p ∈ m.level F l
  position : (m.level F l).idxOf p ≤ k

theorem Stands.rmSlot {k : ℕ} (h : Stands p l k m) (hnodup : (m.queued F).Nodup) (hi : p ≠ i) :
    Stands p l k (m.rmSlot F i) where
  mem := (mem_level_rmSlot hnodup).mpr ⟨hi, h.mem⟩
  position := by
    rw [level_rmSlot hnodup]
    exact (idxOf_erase_le hi).trans h.position

theorem Stands.push {k : ℕ} (h : Stands p l k m) (l' : Level) (i : Slot) :
    Stands p l k (m.push F l' i) where
  mem := by
    rw [level_push]
    exact List.mem_append_left _ h.mem
  position := by
    rw [level_push, List.idxOf_append_of_mem h.mem]
    exact h.position

/-- What `mlfq_update` does with other processes does not hold a process up. -/
theorem Stands.update {k : ℕ} {tran : StateTransition} {timeUnits : ℤ} (h : Stands p l k m)
    (hnodup : (m.queued F).Nodup) (hinit : m.initialized = true)
    (hother : pid2idx m.procSet pid ≠ some p)
    (hm : mlfqUpdate F pid2idx m pid tran timeUnits = some m') :
    Stands p l k m' ∧ m'.procSet = m.procSet ∧ m'.initialized = true := by
  have hremove : removePid F pid2idx m pid = some m' →
      Stands p l k m' ∧ m'.procSet = m.procSet ∧ m'.initialized = true := by
    intro hrm
    obtain ⟨i, hi, rfl⟩ := removePid_eq_some hrm
    exact ⟨h.rmSlot hnodup fun hpi => hother (hpi ▸ hi), rfl, hinit⟩
  have henqueue : enqueuePid F pid2idx m pid = some m' →
      Stands p l k m' ∧ m'.procSet = m.procSet ∧ m'.initialized = true := by
    intro hen
    obtain ⟨i, hi, ⟨-, rfl⟩ | ⟨l', -, rfl, -⟩⟩ := enqueuePid_eq_some hen
    · exact ⟨h.rmSlot hnodup fun hpi => hother (hpi ▸ hi), rfl, hinit⟩
    · refine ⟨(h.rmSlot hnodup fun hpi => hother (hpi ▸ hi)).push l' i, procSet_push, ?_⟩
      cases l' <;> exact hinit
  unfold mlfqUpdate at hm
  rw [if_pos hinit] at hm
  cases tran with
  | onArrive => exact henqueue hm
  | onSchedIn => exact hremove hm
  | onSchedOut => exact henqueue hm
  | onStop => exact hremove hm
  | onSleep =>
    obtain rfl := Option.some.inj hm
    exact ⟨h, rfl, hinit⟩

/-- `mlfq` leaves the process table alone. -/
theorem procSet_mlfq (h : mlfq F pid2idx m = some (m', r)) : m'.procSet = m.procSet := by
  obtain ⟨m₁, hfirst, hrest⟩ := mlfq_eq_some h
  have h₁ : m₁.procSet = m.procSet := by
    rcases hfirst with ⟨-, hrm⟩ | ⟨-, rfl⟩
    · obtain ⟨i, -, rfl⟩ := removePid_eq_some hrm
      rfl
    · rfl
  have hpick := (pickNextPid_frame (F := F) (m := m₁)).1
  rcases hrest with ⟨-, rfl, -⟩ | ⟨-, -, hlast⟩
  · exact hpick.trans h₁
  · split_ifs at hlast
    · obtain ⟨i, -, ⟨-, rfl⟩ | ⟨l, -, rfl, -⟩⟩ := enqueuePid_eq_some hlast
      · exact hpick.trans h₁
      · rw [procSet_push]
        exact hpick.trans h₁
    · rw [hlast]
      exact hpick.trans h₁

/-- What may happen while a process waits in the level `l`.  When `mlfq` is called, the process is
runnable and not the current one, no level above has a process to run, and the kernel finds the
current process; and `mlfq_update` is called for other processes only. -/
def Patient (pid2idx : ProcSet → ℤ → Option Slot) (p : Slot) (l : Level) (m : Mlfq F.Carrier) :
    MlfqInput → Prop
  | .mlfq => (m.procSet p).status.isRunnable = true ∧ p ≠ m.currProcIdx ∧ NothingAbove m l ∧
      (∀ i ∈ m.queued F, (m.procSet i).pid ≠ 0) ∧
      (m.currStatus.isLive = true → pid2idx m.procSet m.currPid = some m.currProcIdx)
  | .update pid _ _ => pid2idx m.procSet pid ≠ some p
  | .change _ _ => True

/-- The calls of `mlfq`, among what a run puts out. -/
def choices (os : List (Option ℤ)) : ℕ := os.countP Option.isSome

/-- The state of a run in which a process waits: it has been chosen, or each call so far has brought
it closer to the head. -/
def Awaits (p : Slot) (l : Level) (k : ℕ) (pid : ℤ) (os : List (Option ℤ)) (m : Mlfq F.Carrier) :
    Prop :=
  some pid ∈ os ∨
    ∃ j, j + choices os ≤ k ∧ Stands p l j m ∧ (m.procSet p).pid = pid ∧ Disciplined m ∧
      m.initialized = true

theorem Awaits.step {k : ℕ} {os : List (Option ℤ)} {inp : MlfqInput} {o : Option ℤ}
    (hfind : Translates pid2idx) (h : Awaits p l k pid os m)
    (hC : PidsKept F m inp ∧ Patient pid2idx p l m inp)
    (hs : mlfqStep F pid2idx m inp = some (m', o)) : Awaits p l k pid (os ++ [o]) m' := by
  rcases h with hchosen | ⟨j, hj, hstands, hpid, hdisc, hinit⟩
  · exact .inl (List.mem_append_left _ hchosen)
  have hdisc' := disciplined_step hfind (fun _ => hdisc) hC.1 hs
  cases inp with
  | mlfq =>
    obtain ⟨⟨m₁, r⟩, hm, heq⟩ := Option.map_eq_some_iff.mp hs
    obtain ⟨rfl, rfl⟩ := Prod.mk.inj heq
    obtain ⟨hrun, hne, habove, hpids, hidx⟩ := hC.2
    have hinit' : m₁.initialized = true := (initialized_mlfq hm).trans hinit
    rcases idxOf_mlfq hdisc.nodup hpids hidx hstands.mem hrun hne habove hm with rfl | ⟨hmem, hlt⟩
    · exact .inl (by simp [hpid])
    · have hposition := hstands.position
      refine .inr ⟨(m₁.level F l).idxOf p, ?_, ⟨hmem, le_refl _⟩, ?_, hdisc' hinit', hinit'⟩
      · simp only [choices, List.countP_append, List.countP_singleton, Option.isSome_some,
          if_true] at hj ⊢
        omega
      · rw [procSet_mlfq hm, hpid]
  | update pid' tran timeUnits =>
    obtain ⟨m₁, hm, heq⟩ := Option.map_eq_some_iff.mp hs
    obtain ⟨rfl, rfl⟩ := Prod.mk.inj heq
    obtain ⟨hstands', hps, hinit'⟩ := hstands.update hdisc.nodup hinit hC.2 hm
    exact .inr ⟨j, by simpa [choices] using hj, hstands', by rw [hps, hpid], hdisc' hinit', hinit'⟩
  | change procSet currProcIdx =>
    obtain ⟨rfl, rfl⟩ := Prod.mk.inj (Option.some.inj hs)
    have hkept : (procSet p).pid = (m.procSet p).pid := hC.1 p (mem_queued.mpr ⟨l, hstands.mem⟩)
    exact .inr ⟨j, by simpa [choices] using hj, ⟨hstands.mem, hstands.position⟩,
      hkept.trans hpid, hdisc' hinit, hinit⟩

/-- **Nobody is overtaken.**  A process stands in a queue.  In any run in which it stays runnable
and no level above has a process to run, it is chosen before `mlfq` has been called more often than
there are processes before it. -/
theorem chosen_within (hfind : Translates pid2idx) {m₀ : Mlfq F.Carrier} (hdisc : Disciplined m₀)
    (hinit : m₀.initialized = true) (hp : p ∈ m₀.level F l) {is : List MlfqInput}
    {os : List (Option ℤ)}
    (hrun : Run (mlfqStep F pid2idx) (fun m i => PidsKept F m i ∧ Patient pid2idx p l m i)
      m₀ is os m)
    (hmany : (m₀.level F l).idxOf p < choices os) : some (m₀.procSet p).pid ∈ os := by
  have h0 : Awaits p l ((m₀.level F l).idxOf p) (m₀.procSet p).pid [] m₀ :=
    .inr ⟨_, le_refl _, ⟨hp, le_refl _⟩, rfl, hdisc, hinit⟩
  have hend := hrun.invariant (P := Awaits p l ((m₀.level F l).idxOf p) (m₀.procSet p).pid)
    (fun _ _ _ _ _ h hC hs => h.step hfind hC hs) h0
  rcases hend with hchosen | ⟨j, hj, -⟩
  · exact hchosen
  · omega

end Waiting

/-- Three processes of the system, of which the third is running and the others wait. -/
def threeWaiting : Mlfq (List Slot) :=
  ⟨[1, 2], [], [], true, fun i =>
    if i = 1 then ⟨3, .runnable, 0⟩ else if i = 2 then ⟨4, .ready, 0⟩
    else if i = 3 then ⟨5, .running, 0⟩ else ⟨0, .unused, 0⟩, 3⟩

/-- The second is chosen at the second call. -/
theorem chosen_within_second : ∃ m, Run (mlfqStep (Queue.list Slot) searchPid)
      (fun m i => PidsKept (Queue.list Slot) m i ∧ Patient searchPid 2 .high m i) threeWaiting
      [.mlfq, .update 3 .onSchedIn 0, .mlfq] [some 3, none, some 4] m ∧
    some (threeWaiting.procSet 2).pid ∈ [some 3, none, some (4 : ℤ)] := by
  have hdisc : Disciplined (F := Queue.list Slot) threeWaiting :=
    ⟨by decide, fun l hl => by cases l <;> simp_all [Mlfq.level, threeWaiting, Queue.list]⟩
  have hrun : Run (mlfqStep (Queue.list Slot) searchPid)
      (fun m i => PidsKept (Queue.list Slot) m i ∧ Patient searchPid 2 .high m i) threeWaiting
      [.mlfq, .update 3 .onSchedIn 0, .mlfq] [some 3, none, some 4]
      { threeWaiting with qHigh := [] } := by
    have hfirst : mlfqStep (Queue.list Slot) searchPid threeWaiting .mlfq =
        some ({ threeWaiting with qHigh := [2] }, some 3) := rfl
    have hin : mlfqStep (Queue.list Slot) searchPid { threeWaiting with qHigh := [2] }
        (.update 3 .onSchedIn 0) = some ({ threeWaiting with qHigh := [2] }, none) := rfl
    have hsecond : mlfqStep (Queue.list Slot) searchPid { threeWaiting with qHigh := [2] } .mlfq =
        some ({ threeWaiting with qHigh := [] }, some 4) := rfl
    refine ((Run.nil.snoc ⟨trivial, ?first⟩ hfirst).snoc ⟨trivial, ?update⟩ hin).snoc
      ⟨trivial, ?second⟩ hsecond
    case first => exact ⟨by decide, by decide, nothingAbove_high _, by decide, by decide⟩
    case update =>
      show searchPid threeWaiting.procSet 3 ≠ some 2
      decide
    case second => exact ⟨by decide, by decide, nothingAbove_high _, by decide, by decide⟩
  exact ⟨_, hrun, chosen_within translates_searchPid hdisc rfl (by decide) hrun (by decide)⟩

end Grass
end EgosNet
