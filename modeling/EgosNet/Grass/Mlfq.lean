import EgosNet.Foundation.Queue
import EgosNet.Foundation.Run
import Mathlib.Tactic.Linarith

/-!
# The scheduler of the kernel: `grass/mlfq.c`

Three queues of process slots, one for each priority.  A slot enters a queue when its process
arrives or is scheduled out, at the level that its CPU time earns it, and leaves when the process is
scheduled in or stops; `mlfq` itself takes the first runnable slot it meets, scanning the levels
from the highest, and turns the slots that are not runnable to the back of their queue.

Two things the file includes are not part of the repository: the queue of `queue.h` and `pid2idx`.
Both are parameters here.  The queue comes with its laws (`Foundation.Queue`); `pid2idx` answers
with the index of the slot that holds a pid, and does not answer for a pid that no slot holds, in
which case the call that asked does not return.

* `scan_cases`, `pickNextPid_chosen`: what a scan takes out of a queue, and what it leaves.
* `removePid_eq_some`, `enqueuePid_eq_some`, `mlfq_eq_some`: what the operations do to the queues.
-/

namespace EgosNet
namespace Grass

open Foundation

/-! ## Processes -/

/-- `enum proc_status`. -/
inductive ProcStatus where
  | unused
  | loading
  | ready
  | running
  | runnable
  | pendingSyscall
  | sleeping
  deriving DecidableEq, Repr

/-- What the scheduler reads of a `struct process`: `cpuTime` is `schd_attr.longlongs[3]`. -/
structure Process where
  pid : ℤ
  status : ProcStatus
  cpuTime : ℕ
  deriving DecidableEq, Repr

/-- `MAX_NPROCESS`. -/
def MAX_NPROCESS : ℕ := 16

/-- `USER_PID_START`, which is `GPID_USER_START`. -/
def USER_PID_START : ℤ := 6

/-- `QUANTUM`. -/
def QUANTUM : ℕ := 6000000

/-- An index into `proc_set`; the queues hold the addresses of such slots. -/
abbrev Slot := Fin (MAX_NPROCESS + 1)

/-- A number stands for the slot with that number. -/
instance (priority := 2000) : NeZero (MAX_NPROCESS + 1) := ⟨Nat.succ_ne_zero MAX_NPROCESS⟩

/-- `proc_set`. -/
abbrev ProcSet := Slot → Process

/-- `enum state_transition`. -/
inductive StateTransition where
  | onArrive
  | onSchedIn
  | onSchedOut
  | onStop
  | onSleep
  deriving DecidableEq, Repr

/-- The status test of `dequeue_runnable`. -/
def ProcStatus.isRunnable : ProcStatus → Bool
  | .ready | .runnable => true
  | _ => false

/-- The statuses with which the current process is taken out of the queues. -/
def ProcStatus.isLive : ProcStatus → Bool
  | .running | .runnable | .ready => true
  | _ => false

/-! ## The scheduler -/

/-- The static variables of `mlfq.c` and the kernel's variables it reads: `proc_set` and
`curr_proc_idx`. -/
structure Mlfq (Q : Type) where
  qHigh : Q
  qMid : Q
  qLow : Q
  initialized : Bool
  procSet : ProcSet
  currProcIdx : Slot

section Scheduler

variable (F : Queue Slot) (pid2idx : ProcSet → ℤ → Option Slot)

/-- `curr_pid`. -/
def Mlfq.currPid {Q : Type} (m : Mlfq Q) : ℤ := (m.procSet m.currProcIdx).pid

/-- `curr_status`. -/
def Mlfq.currStatus {Q : Type} (m : Mlfq Q) : ProcStatus := (m.procSet m.currProcIdx).status

/-- `mlfq_init`. -/
def mlfqInit (m : Mlfq F.Carrier) : Mlfq F.Carrier :=
  { m with qHigh := F.init, qMid := F.init, qLow := F.init }

/-- Take a slot out of the three queues. -/
def Mlfq.rmSlot (m : Mlfq F.Carrier) (i : Slot) : Mlfq F.Carrier :=
  { m with
    qHigh := F.tryRmItem m.qHigh i
    qMid := F.tryRmItem m.qMid i
    qLow := F.tryRmItem m.qLow i }

/-- `remove_pid`. -/
def removePid (m : Mlfq F.Carrier) (pid : ℤ) : Option (Mlfq F.Carrier) :=
  match pid2idx m.procSet pid with
  | none => none
  | some i => some (m.rmSlot F i)

/-- The `while` loop of `dequeue_runnable`, with `count` turns to go. -/
def scan (ps : ProcSet) : ℕ → F.Carrier → ℤ × F.Carrier
  | 0, q => (0, q)
  | count + 1, q =>
    match F.dequeue q with
    | (none, q') => (0, q')
    | (some p, q') =>
      if (ps p).status.isRunnable then ((ps p).pid, q') else scan ps count (F.enqueue q' p)

/-- `dequeue_runnable`: as many turns as the queue has nodes. -/
def dequeueRunnable (ps : ProcSet) (q : F.Carrier) : ℤ × F.Carrier :=
  scan F ps (F.items q).length q

/-- `pick_next_pid`. -/
def pickNextPid (m : Mlfq F.Carrier) : ℤ × Mlfq F.Carrier :=
  let (pid, qHigh) := dequeueRunnable F m.procSet m.qHigh
  let m := { m with qHigh := qHigh }
  if pid ≠ 0 then (pid, m)
  else
    let (pid, qMid) := dequeueRunnable F m.procSet m.qMid
    let m := { m with qMid := qMid }
    if pid ≠ 0 then (pid, m)
    else
      let (pid, qLow) := dequeueRunnable F m.procSet m.qLow
      (pid, { m with qLow := qLow })

/-- `level_for_pid`; system processes are in the highest queue whatever time they took. -/
def levelForPid (ps : ProcSet) (pid : ℤ) : Option ℕ :=
  if pid < USER_PID_START then some 0
  else
    match pid2idx ps pid with
    | none => none
    | some i =>
      if (ps i).cpuTime ≤ QUANTUM then some 0
      else if (ps i).cpuTime < 2 * QUANTUM then some 1
      else some 2

/-- `enqueue_pid`: the slot is taken out first, and not put back if it is unused. -/
def enqueuePid (m : Mlfq F.Carrier) (pid : ℤ) : Option (Mlfq F.Carrier) :=
  match removePid F pid2idx m pid, pid2idx m.procSet pid with
  | some m, some i =>
    if (m.procSet i).status = .unused then some m
    else
      match levelForPid pid2idx m.procSet pid with
      | none => none
      | some 0 => some { m with qHigh := F.enqueue m.qHigh i }
      | some 1 => some { m with qMid := F.enqueue m.qMid i }
      | some _ => some { m with qLow := F.enqueue m.qLow i }
  | _, _ => none

/-- `mlfq`: the next pid, or `none` where `pid2idx` does not answer. -/
def mlfq (m : Mlfq F.Carrier) : Option (Mlfq F.Carrier × ℤ) :=
  match if m.currStatus.isLive then removePid F pid2idx m m.currPid else some m with
  | none => none
  | some m =>
    let (nextPid, m) := pickNextPid F m
    if nextPid = 0 then
      if m.currStatus = .running ∨ m.currStatus = .runnable then some (m, m.currPid)
      else some (m, 0)
    else if m.currStatus = .ready ∨ m.currStatus = .runnable then
      match enqueuePid F pid2idx m m.currPid with
      | none => none
      | some m => some (m, nextPid)
    else some (m, nextPid)

/-- `mlfq_update`; the time units are not used. -/
def mlfqUpdate (m : Mlfq F.Carrier) (pid : ℤ) (tran : StateTransition) (_timeUnits : ℤ) :
    Option (Mlfq F.Carrier) :=
  let m := if m.initialized then m else { mlfqInit F m with initialized := true }
  match tran with
  | .onArrive => enqueuePid F pid2idx m pid
  | .onSchedIn => removePid F pid2idx m pid
  | .onSchedOut => enqueuePid F pid2idx m pid
  | .onStop => removePid F pid2idx m pid
  | .onSleep => some m

/-- The queues, named. -/
inductive Level where
  | high
  | mid
  | low
  deriving DecidableEq, Repr

/-- The number that `level_for_pid` has for a queue; the highest is zero. -/
def Level.number : Level → ℕ
  | .high => 0
  | .mid => 1
  | .low => 2

/-- The slots of a queue. -/
def Mlfq.level (m : Mlfq F.Carrier) : Level → List Slot
  | .high => F.items m.qHigh
  | .mid => F.items m.qMid
  | .low => F.items m.qLow

/-- The slots of the three queues together. -/
def Mlfq.queued (m : Mlfq F.Carrier) : List Slot :=
  m.level F .high ++ m.level F .mid ++ m.level F .low

/-- Append a slot to a queue. -/
def Mlfq.push (m : Mlfq F.Carrier) (l : Level) (i : Slot) : Mlfq F.Carrier :=
  match l with
  | .high => { m with qHigh := F.enqueue m.qHigh i }
  | .mid => { m with qMid := F.enqueue m.qMid i }
  | .low => { m with qLow := F.enqueue m.qLow i }

/-! ## What the operations do to the queues -/

variable {F pid2idx} {m m' : Mlfq F.Carrier} {ps : ProcSet} {i j : Slot} {l l' : Level} {pid r : ℤ}

theorem mem_queued : i ∈ m.queued F ↔ ∃ l, i ∈ m.level F l := by
  constructor
  · intro h
    simp only [Mlfq.queued, List.mem_append] at h
    rcases h with (h | h) | h
    · exact ⟨.high, h⟩
    · exact ⟨.mid, h⟩
    · exact ⟨.low, h⟩
  · rintro ⟨l, h⟩
    simp only [Mlfq.queued, List.mem_append]
    cases l with
    | high => exact Or.inl (Or.inl h)
    | mid => exact Or.inl (Or.inr h)
    | low => exact Or.inr h

/-- No slot is queued twice exactly when no queue repeats a slot and no two queues share one. -/
theorem nodup_queued_iff : (m.queued F).Nodup ↔
    (∀ l, (m.level F l).Nodup) ∧ ∀ l l', l ≠ l' → ∀ i ∈ m.level F l, i ∉ m.level F l' := by
  constructor
  · intro h
    simp only [Mlfq.queued, List.nodup_append, List.mem_append] at h
    obtain ⟨⟨hhigh, hmid, hhm⟩, hlow, hhml⟩ := h
    constructor
    · intro l
      cases l <;> assumption
    · intro l l' hne i hi hi'
      cases l <;> cases l' <;> first
        | exact hne rfl
        | exact hhm i hi i hi' rfl
        | exact hhm i hi' i hi rfl
        | exact hhml i (Or.inl hi) i hi' rfl
        | exact hhml i (Or.inl hi') i hi rfl
        | exact hhml i (Or.inr hi) i hi' rfl
        | exact hhml i (Or.inr hi') i hi rfl
  · rintro ⟨hnodup, hdisj⟩
    simp only [Mlfq.queued, List.nodup_append, List.mem_append]
    refine ⟨⟨hnodup .high, hnodup .mid, ?_⟩, hnodup .low, ?_⟩
    · rintro a ha b hb rfl
      exact hdisj .high .mid (by simp) a ha hb
    · rintro a (ha | ha) b hb rfl
      · exact hdisj .high .low (by simp) a ha hb
      · exact hdisj .mid .low (by simp) a ha hb

@[simp] theorem procSet_rmSlot : (m.rmSlot F i).procSet = m.procSet := rfl

@[simp] theorem procSet_push : (m.push F l i).procSet = m.procSet := by
  cases l <;> rfl

theorem level_push : (m.push F l i).level F l' = m.level F l' ++ if l' = l then [i] else [] := by
  cases l <;> cases l' <;> simp [Mlfq.push, Mlfq.level]

theorem level_rmSlot (h : (m.queued F).Nodup) :
    (m.rmSlot F i).level F l = (m.level F l).erase i := by
  have hnodup := (nodup_queued_iff.mp h).1 l
  cases l <;> exact F.items_tryRmItem _ _ hnodup

/-- Taking slots out of queues without repetition leaves no repetition. -/
theorem nodup_queued_of_subperm (h : (m.queued F).Nodup)
    (hsub : ∀ l, (m'.level F l).Subperm (m.level F l)) : (m'.queued F).Nodup := by
  obtain ⟨hnodup, hdisj⟩ := nodup_queued_iff.mp h
  refine nodup_queued_iff.mpr ⟨fun l => ?_, fun l l' hne i hi hi' => ?_⟩
  · obtain ⟨t, hperm, hsubl⟩ := hsub l
    exact hperm.nodup_iff.mp (hsubl.nodup (hnodup l))
  · exact hdisj l l' hne i ((hsub l).subset hi) ((hsub l').subset hi')

theorem level_rmSlot_subperm (h : (m.queued F).Nodup) :
    ((m.rmSlot F i).level F l).Subperm (m.level F l) := by
  rw [level_rmSlot h]
  exact List.erase_sublist.subperm

theorem nodup_rmSlot (h : (m.queued F).Nodup) : ((m.rmSlot F i).queued F).Nodup :=
  nodup_queued_of_subperm h fun _ => level_rmSlot_subperm h

/-- A slot that was taken out is in no queue; the others are where they were. -/
theorem mem_level_rmSlot (h : (m.queued F).Nodup) :
    j ∈ (m.rmSlot F i).level F l ↔ j ≠ i ∧ j ∈ m.level F l := by
  rw [level_rmSlot h]
  exact ((nodup_queued_iff.mp h).1 l).mem_erase_iff

theorem notMem_level_rmSlot (h : (m.queued F).Nodup) : i ∉ (m.rmSlot F i).level F l := by
  intro hi
  exact ((mem_level_rmSlot h).mp hi).1 rfl

/-- A slot in no queue may be appended to one. -/
theorem nodup_push (h : (m.queued F).Nodup) (hi : ∀ l, i ∉ m.level F l) :
    ((m.push F l i).queued F).Nodup := by
  obtain ⟨hnodup, hdisj⟩ := nodup_queued_iff.mp h
  refine nodup_queued_iff.mpr ⟨fun k => ?_, fun k k' hne j hj hj' => ?_⟩
  · rw [level_push]
    split_ifs with hk
    · exact List.nodup_append.mpr ⟨hnodup k, List.nodup_singleton i, by
        rintro a ha b hb rfl
        obtain rfl := List.mem_singleton.mp hb
        exact hi k ha⟩
    · simpa using hnodup k
  · -- the new slot is in one queue only, and the old ones are in the queues they were in
    rw [level_push, List.mem_append] at hj hj'
    rcases hj with hj | hj <;> rcases hj' with hj' | hj'
    · exact hdisj k k' hne j hj hj'
    · split_ifs at hj'
      · obtain rfl := List.mem_singleton.mp hj'
        exact hi k hj
      · exact absurd hj' (by simp)
    · split_ifs at hj
      · obtain rfl := List.mem_singleton.mp hj
        exact hi k' hj'
      · exact absurd hj (by simp)
    · split_ifs at hj hj' with hk hk'
      · exact hne (hk.trans hk'.symm)
      · exact absurd hj' (by simp)
      · exact absurd hj (by simp)
      · exact absurd hj (by simp)

/-! ## The scan -/

/-- **The loop of `dequeue_runnable`.**  With `a` still to be met and `b` behind it, the loop takes
out the first runnable slot of `a` and leaves what it passed at the back; or there is none, and `a`
is behind `b`. -/
theorem scan_cases (ps : ProcSet) (a b : List Slot) (q : F.Carrier) (hq : F.items q = a ++ b) :
    (∃ a₁ x a₂, a = a₁ ++ x :: a₂ ∧ (∀ y ∈ a₁, (ps y).status.isRunnable = false) ∧
      (ps x).status.isRunnable = true ∧ (scan F ps a.length q).1 = (ps x).pid ∧
      F.items (scan F ps a.length q).2 = a₂ ++ b ++ a₁) ∨
    ((∀ y ∈ a, (ps y).status.isRunnable = false) ∧ (scan F ps a.length q).1 = 0 ∧
      F.items (scan F ps a.length q).2 = b ++ a) := by
  induction a generalizing b q with
  | nil =>
    refine Or.inr ⟨by simp, rfl, ?_⟩
    rw [List.append_nil]
    exact hq
  | cons p a ih =>
    obtain ⟨hout, hrest⟩ := F.dequeue_cons q p (a ++ b) hq
    have hd : F.dequeue q = (some p, (F.dequeue q).2) := by rw [← hout]
    by_cases hp : (ps p).status.isRunnable = true
    · have hscan : scan F ps (p :: a).length q = ((ps p).pid, (F.dequeue q).2) := by
        rw [List.length_cons, scan, hd]
        simp [hp]
      refine Or.inl ⟨[], p, a, rfl, by simp, hp, by rw [hscan], ?_⟩
      rw [hscan, List.append_nil]
      exact hrest
    · have hscan : scan F ps (p :: a).length q =
          scan F ps a.length (F.enqueue (F.dequeue q).2 p) := by
        rw [List.length_cons, scan, hd]
        simp [hp]
      have hq' : F.items (F.enqueue (F.dequeue q).2 p) = a ++ (b ++ [p]) := by
        rw [F.items_enqueue, hrest, List.append_assoc]
      have hpassed {a₁ : List Slot} (h : ∀ y ∈ a₁, (ps y).status.isRunnable = false) :
          ∀ y ∈ p :: a₁, (ps y).status.isRunnable = false := by
        intro y hy
        rcases List.mem_cons.mp hy with rfl | hy
        · simpa using hp
        · exact h y hy
      rw [hscan]
      rcases ih (b ++ [p]) _ hq' with ⟨a₁, x, a₂, rfl, ha₁, hx, hr, hit⟩ | ⟨hnone, hr, hit⟩
      · refine Or.inl ⟨p :: a₁, x, a₂, rfl, hpassed ha₁, hx, hr, ?_⟩
        rw [hit]
        simp
      · refine Or.inr ⟨hpassed hnone, hr, ?_⟩
        rw [hit]
        simp

/-- What one level loses when it is scanned: one runnable slot, whose pid is the result; or nothing,
and then no slot there was runnable and the result is zero. -/
def Scanned (ps : ProcSet) (l : List Slot) (r : ℤ) (l' : List Slot) : Prop :=
  (∃ x, (ps x).status.isRunnable = true ∧ r = (ps x).pid ∧ l.Perm (x :: l')) ∨
    ((∀ y ∈ l, (ps y).status.isRunnable = false) ∧ r = 0 ∧ l' = l)

theorem dequeueRunnable_scanned (ps : ProcSet) (q : F.Carrier) :
    Scanned ps (F.items q) (dequeueRunnable F ps q).1 (F.items (dequeueRunnable F ps q).2) := by
  rcases scan_cases ps (F.items q) [] q (List.append_nil _).symm with
    ⟨a₁, x, a₂, ha, -, hx, hr, hit⟩ | ⟨hnone, hr, hit⟩
  · refine Or.inl ⟨x, hx, hr, ?_⟩
    rw [dequeueRunnable, hit, List.append_nil]
    nth_rewrite 1 [ha]
    exact List.perm_middle.trans (List.perm_append_comm.cons x)
  · exact Or.inr ⟨hnone, hr, hit⟩

theorem Scanned.subperm {a b : List Slot} (h : Scanned ps a r b) : b.Subperm a := by
  rcases h with ⟨x, -, -, hperm⟩ | ⟨-, -, rfl⟩
  · exact ((List.sublist_cons_self x b).subperm).trans hperm.symm.subperm
  · exact List.Subperm.refl _

/-- `pick_next_pid` writes the queues only. -/
theorem pickNextPid_frame : (pickNextPid F m).2.procSet = m.procSet ∧
    (pickNextPid F m).2.currProcIdx = m.currProcIdx ∧
    (pickNextPid F m).2.initialized = m.initialized := by
  unfold pickNextPid
  dsimp only
  split_ifs <;> exact ⟨rfl, rfl, rfl⟩

/-- `pick_next_pid` takes slots out of the queues, and puts none in. -/
theorem level_pickNextPid_subperm : ((pickNextPid F m).2.level F l).Subperm (m.level F l) := by
  have hscan (q : F.Carrier) :
      (F.items (dequeueRunnable F m.procSet q).2).Subperm (F.items q) :=
    (dequeueRunnable_scanned m.procSet q).subperm
  unfold pickNextPid
  dsimp only
  split_ifs <;> cases l <;> first
    | exact hscan _
    | exact List.Subperm.refl _

/-- The choice among the levels `H`: `x`, the first runnable slot of the highest level that has one.
It stands in the level `l` with `skipped` before it and `rest` after it. -/
structure Chosen (ps : ProcSet) (H : Level → List Slot) (l : Level) (skipped : List Slot) (x : Slot)
    (rest : List Slot) : Prop where
  split : H l = skipped ++ x :: rest
  runnable : (ps x).status.isRunnable = true
  before : ∀ y ∈ skipped, (ps y).status.isRunnable = false
  above : ∀ l', l'.number < l.number → ∀ y ∈ H l', (ps y).status.isRunnable = false

/-- A scan that answers zero met no runnable slot, and one that does not took out the first one. -/
theorem dequeueRunnable_cases {q : F.Carrier} (hpid : ∀ i ∈ F.items q, (ps i).pid ≠ 0) :
    ((dequeueRunnable F ps q).1 ≠ 0 ∧ ∃ a x b, F.items q = a ++ x :: b ∧
      (∀ y ∈ a, (ps y).status.isRunnable = false) ∧ (ps x).status.isRunnable = true ∧
      (dequeueRunnable F ps q).1 = (ps x).pid ∧ F.items (dequeueRunnable F ps q).2 = b ++ a) ∨
    ((dequeueRunnable F ps q).1 = 0 ∧ (∀ y ∈ F.items q, (ps y).status.isRunnable = false) ∧
      F.items (dequeueRunnable F ps q).2 = F.items q) := by
  rcases scan_cases ps (F.items q) [] q (List.append_nil _).symm with
    ⟨a, x, b, hq, ha, hx, hr, hit⟩ | ⟨hnone, hr, hit⟩
  · rw [List.append_nil] at hit
    refine Or.inl ⟨?_, a, x, b, hq, ha, hx, hr, hit⟩
    rw [dequeueRunnable, hr]
    exact hpid x (by simp [hq])
  · exact Or.inr ⟨hr, hnone, hit⟩

/-- **What `pick_next_pid` chooses**, when no queued process has pid zero: the first runnable slot
of the highest level that has one.  The level is left turned to the place of the choice, and the
others as they were; nothing changes at all when there is no such slot. -/
theorem pickNextPid_chosen (hpid : ∀ i ∈ m.queued F, (m.procSet i).pid ≠ 0) :
    (∃ l a x b, Chosen m.procSet (m.level F) l a x b ∧
      (pickNextPid F m).1 = (m.procSet x).pid ∧
      ∀ l', (pickNextPid F m).2.level F l' = if l' = l then b ++ a else m.level F l') ∨
    ((∀ l, ∀ y ∈ m.level F l, (m.procSet y).status.isRunnable = false) ∧
      (pickNextPid F m).1 = 0 ∧ ∀ l, (pickNextPid F m).2.level F l = m.level F l) := by
  have hpids (l : Level) : ∀ i ∈ m.level F l, (m.procSet i).pid ≠ 0 :=
    fun i hi => hpid i (mem_queued.mpr ⟨l, hi⟩)
  unfold pickNextPid
  dsimp only
  rcases dequeueRunnable_cases (q := m.qHigh) (hpids .high) with
    ⟨hne, a, x, b, hq, ha, hx, hr, hit⟩ | ⟨hhigh, hnhigh, hihigh⟩
  · rw [if_pos hne]
    refine Or.inl ⟨.high, a, x, b, ⟨hq, hx, ha, ?_⟩, hr, ?_⟩
    · rintro (_ | _ | _) hlt <;> simp [Level.number] at hlt
    · rintro (_ | _ | _)
      · exact hit
      · rfl
      · rfl
  rw [if_neg (not_not.mpr hhigh)]
  rcases dequeueRunnable_cases (q := m.qMid) (hpids .mid) with
    ⟨hne, a, x, b, hq, ha, hx, hr, hit⟩ | ⟨hmid, hnmid, himid⟩
  · rw [if_pos hne]
    refine Or.inl ⟨.mid, a, x, b, ⟨hq, hx, ha, ?_⟩, hr, ?_⟩
    · rintro (_ | _ | _) hlt
      · exact hnhigh
      · simp [Level.number] at hlt
      · simp [Level.number] at hlt
    · rintro (_ | _ | _)
      · exact hihigh
      · exact hit
      · rfl
  rw [if_neg (not_not.mpr hmid)]
  rcases dequeueRunnable_cases (q := m.qLow) (hpids .low) with
    ⟨-, a, x, b, hq, ha, hx, hr, hit⟩ | ⟨hlow, hnlow, hilow⟩
  · refine Or.inl ⟨.low, a, x, b, ⟨hq, hx, ha, ?_⟩, hr, ?_⟩
    · rintro (_ | _ | _) hlt
      · exact hnhigh
      · exact hnmid
      · simp [Level.number] at hlt
    · rintro (_ | _ | _)
      · exact hihigh
      · exact himid
      · exact hit
  · refine Or.inr ⟨?_, hlow, ?_⟩
    · rintro (_ | _ | _)
      · exact hnhigh
      · exact hnmid
      · exact hnlow
    · rintro (_ | _ | _)
      · exact hihigh
      · exact himid
      · exact hilow

/-- What `pick_next_pid` finds, without the order: a runnable slot, which is taken out of its queue,
and the pid is that slot's; or no queued slot is runnable, and the pid is zero.  The queues keep
everything else. -/
theorem pickNextPid_cases (hpid : ∀ i ∈ m.queued F, (m.procSet i).pid ≠ 0) :
    (∃ x, x ∈ m.queued F ∧ (m.procSet x).status.isRunnable = true ∧
      (pickNextPid F m).1 = (m.procSet x).pid ∧
      ∀ l, ∀ i ∈ m.level F l, i ≠ x → i ∈ (pickNextPid F m).2.level F l) ∨
    ((∀ y ∈ m.queued F, (m.procSet y).status.isRunnable = false) ∧ (pickNextPid F m).1 = 0 ∧
      ∀ l, (pickNextPid F m).2.level F l = m.level F l) := by
  rcases pickNextPid_chosen hpid with ⟨l, a, x, b, hc, hr, hlevel⟩ | ⟨hnone, hr, hlevel⟩
  · have hx : x ∈ m.level F l := by simp [hc.split]
    refine Or.inl ⟨x, mem_queued.mpr ⟨l, hx⟩, hc.runnable, hr, fun l' i hi hix => ?_⟩
    rw [hlevel]
    split_ifs with hl
    · subst hl
      rw [hc.split] at hi
      rcases List.mem_append.mp hi with hi | hi
      · exact List.mem_append_right b hi
      · exact List.mem_append_left a (List.mem_of_ne_of_mem hix hi)
    · exact hi
  · refine Or.inr ⟨fun y hy => ?_, hr, hlevel⟩
    obtain ⟨l, hy⟩ := mem_queued.mp hy
    exact hnone l y hy

/-! ## Entering a queue -/

theorem removePid_eq_some (h : removePid F pid2idx m pid = some m') :
    ∃ i, pid2idx m.procSet pid = some i ∧ m' = m.rmSlot F i := by
  unfold removePid at h
  split at h
  · exact absurd h (by simp)
  · rename_i i hi
    exact ⟨i, hi, (Option.some.inj h).symm⟩

/-- The levels that `level_for_pid` selects; a process of the system is in the highest. -/
theorem levelForPid_eq_some {n : ℕ} (h : levelForPid pid2idx ps pid = some n) :
    n = 0 ∨ (n = 1 ∨ n = 2) ∧ USER_PID_START ≤ pid := by
  unfold levelForPid at h
  split_ifs at h with hsys
  · exact Or.inl (Option.some.inj h).symm
  · have huser : USER_PID_START ≤ pid := not_lt.mp hsys
    split at h
    · exact absurd h (by simp)
    · split_ifs at h
      · exact Or.inl (Option.some.inj h).symm
      · exact Or.inr ⟨Or.inl (Option.some.inj h).symm, huser⟩
      · exact Or.inr ⟨Or.inr (Option.some.inj h).symm, huser⟩

/-- `enqueue_pid` takes the slot out of the queues and, unless it is unused, appends it to the one
that `level_for_pid` selects. -/
theorem enqueuePid_eq_some (h : enqueuePid F pid2idx m pid = some m') :
    ∃ i, pid2idx m.procSet pid = some i ∧
      (((m.procSet i).status = .unused ∧ m' = m.rmSlot F i) ∨
        ∃ l, (m.procSet i).status ≠ .unused ∧ m' = (m.rmSlot F i).push F l i ∧
          levelForPid pid2idx m.procSet pid = some l.number) := by
  unfold enqueuePid at h
  split at h
  · rename_i m₁ i hrm hi
    obtain ⟨i', hi', rfl⟩ := removePid_eq_some hrm
    obtain rfl : i' = i := Option.some.inj (hi'.symm.trans hi)
    refine ⟨i', hi, ?_⟩
    split_ifs at h with hst
    · exact Or.inl ⟨hst, (Option.some.inj h).symm⟩
    · refine Or.inr ?_
      split at h
      · exact absurd h (by simp)
      · rename_i hl
        exact ⟨.high, hst, (Option.some.inj h).symm, hl⟩
      · rename_i hl
        exact ⟨.mid, hst, (Option.some.inj h).symm, hl⟩
      · rename_i n h0 h1 hl
        obtain rfl : n = 2 := by
          rcases levelForPid_eq_some hl with hn | ⟨hn | hn, -⟩
          · exact absurd hn h0
          · exact absurd hn h1
          · exact hn
        exact ⟨.low, hst, (Option.some.inj h).symm, hl⟩
  · exact absurd h (by simp)

/-- `enqueue_pid` returns when `pid2idx` answers. -/
theorem exists_enqueuePid (hi : pid2idx m.procSet pid = some i) :
    ∃ m', enqueuePid F pid2idx m pid = some m' := by
  have hrm : removePid F pid2idx m pid = some (m.rmSlot F i) := by
    unfold removePid
    rw [hi]
  have hlevel : ∃ n, levelForPid pid2idx m.procSet pid = some n := by
    unfold levelForPid
    rw [hi]
    split_ifs
    · exact ⟨0, rfl⟩
    · dsimp only
      split_ifs
      · exact ⟨0, rfl⟩
      · exact ⟨1, rfl⟩
      · exact ⟨2, rfl⟩
  obtain ⟨n, hn⟩ := hlevel
  unfold enqueuePid
  rw [hrm, hi]
  dsimp only
  split_ifs
  · exact ⟨_, rfl⟩
  · rw [procSet_rmSlot, hn]
    split
    · exact absurd ‹_› (by simp)
    · exact ⟨_, rfl⟩
    · exact ⟨_, rfl⟩
    · exact ⟨_, rfl⟩

/-! ## One call of `mlfq` -/

/-- **One call of `mlfq`**: the slots it takes out, the choice, and the slot it puts back. -/
theorem mlfq_eq_some (h : mlfq F pid2idx m = some (m', r)) :
    ∃ m₁, ((m.currStatus.isLive = true ∧ removePid F pid2idx m m.currPid = some m₁) ∨
        (m.currStatus.isLive = false ∧ m₁ = m)) ∧
      (((pickNextPid F m₁).1 = 0 ∧ m' = (pickNextPid F m₁).2 ∧
          r = if m.currStatus = .running ∨ m.currStatus = .runnable then m.currPid else 0) ∨
        ((pickNextPid F m₁).1 ≠ 0 ∧ r = (pickNextPid F m₁).1 ∧
          if m.currStatus = .ready ∨ m.currStatus = .runnable then
            enqueuePid F pid2idx (pickNextPid F m₁).2 m.currPid = some m'
          else m' = (pickNextPid F m₁).2)) := by
  unfold mlfq at h
  split at h
  · exact absurd h (by simp)
  · rename_i m₁ hm₁
    have hfirst : (m.currStatus.isLive = true ∧ removePid F pid2idx m m.currPid = some m₁) ∨
        (m.currStatus.isLive = false ∧ m₁ = m) := by
      split_ifs at hm₁ with hlive
      · exact Or.inl ⟨hlive, hm₁⟩
      · exact Or.inr ⟨by simpa using hlive, (Option.some.inj hm₁).symm⟩
    refine ⟨m₁, hfirst, ?_⟩
    have hsame : m₁.procSet = m.procSet ∧ m₁.currProcIdx = m.currProcIdx := by
      rcases hfirst with ⟨-, hrm⟩ | ⟨-, rfl⟩
      · obtain ⟨i, -, rfl⟩ := removePid_eq_some hrm
        exact ⟨rfl, rfl⟩
      · exact ⟨rfl, rfl⟩
    obtain ⟨hps, hidx, -⟩ := pickNextPid_frame (F := F) (m := m₁)
    have hstatus : (pickNextPid F m₁).2.currStatus = m.currStatus := by
      rw [Mlfq.currStatus, hps, hidx, hsame.1, hsame.2, Mlfq.currStatus]
    have hpid : (pickNextPid F m₁).2.currPid = m.currPid := by
      rw [Mlfq.currPid, hps, hidx, hsame.1, hsame.2, Mlfq.currPid]
    dsimp only at h
    rw [hstatus, hpid] at h
    split_ifs at h with hzero hrun hready
    · obtain ⟨rfl, rfl⟩ := Prod.mk.inj (Option.some.inj h)
      exact Or.inl ⟨hzero, rfl, by rw [if_pos hrun]⟩
    · obtain ⟨rfl, rfl⟩ := Prod.mk.inj (Option.some.inj h)
      exact Or.inl ⟨hzero, rfl, by rw [if_neg hrun]⟩
    · split at h
      · exact absurd h (by simp)
      · rename_i m₂ hm₂
        obtain ⟨rfl, rfl⟩ := Prod.mk.inj (Option.some.inj h)
        exact Or.inr ⟨hzero, rfl, by rw [if_pos hready]; exact hm₂⟩
    · obtain ⟨rfl, rfl⟩ := Prod.mk.inj (Option.some.inj h)
      exact Or.inr ⟨hzero, rfl, by rw [if_neg hready]⟩

end Scheduler

end Grass
end EgosNet
