import EgosNet.Foundation.Run
import EgosNet.Foundation.Text
import Mathlib.Data.List.Forall2

/-!
# The process server: `apps/system/sys_proc.c`

The shell asks this server to start programs, and a program tells it when it ends.  For a program in
the foreground the shell then waits for a second message, which the server has to send when that
program exits, and only then.  What the server remembers for this purpose is very little: the pid of
the last program it started, and a flag that is set by every start and cleared by none of the exits.

A flag that stays set would be wrong for a server that is asked anything at any time.  It is right
here because of what the others do: the shell starts nothing while it waits, so between the start of
a foreground program and its exit nothing touches the two variables, and whatever exits in between
runs under another pid.  Pids may be used again, but only by a start, which sets the variables anew.

The file lookups, the kernel's choice of a pid and the loader are answers of the environment.

* `appSpawn`, `handle`: the server.
* `World`, `step`: the server with the shell and the programs it has started; `Protocol`: what they
  keep to.
* `foreground_protocol`: one reply for every start, one more message for the exit of a foreground
  program, none for the exit of a background program.
-/

namespace EgosNet
namespace Apps

open Foundation

/-! ## The server -/

/-- `GPID_ALL`. -/
def GPID_ALL : ℤ := -1

/-- `GPID_SHELL`. -/
def GPID_SHELL : ℤ := 5

/-- The field `type` of `struct proc_request`. -/
inductive ProcRequestType where
  | spawn
  | exit
  | killall
  | other (type : ℕ)
  deriving DecidableEq, Repr

/-- The field `type` of `struct proc_reply`. -/
inductive ProcReplyType where
  | ok
  | error
  deriving DecidableEq, Repr

/-- The reply lies over the request in the message buffer; a buffer that is sent back as it came has
`PROC_EXIT`, which is the number of `CMD_ERROR`, where a reply has its type. -/
def ProcRequestType.asReply : ProcRequestType → ProcReplyType
  | .spawn => .ok
  | _ => .error

/-- `struct proc_request`.  `argv k` is the string that starts at `argv[k]`. -/
structure ProcRequest where
  type : ProcRequestType
  argc : ℤ
  argv : ℤ → List UInt8

/-- `argv[argc - 1][0]`, which is zero for the empty string. -/
def ProcRequest.lastChar (req : ProcRequest) : UInt8 := (req.argv (req.argc - 1)).headD 0

/-- `'&'`. -/
def ampersand : UInt8 := 38

/-- What the server prints. -/
inductive Info where
  | runningInBackground (pid : ℤ)
  | backgroundTerminated (pid : ℤ)
  deriving DecidableEq, Repr

/-- What the server asks the kernel to do. -/
inductive Action where
  | elfLoad (pid ino argc : ℤ)
  | procSetReady (pid : ℤ)
  | procFree (pid : ℤ)
  | sysSend (receiver : ℤ) (type : ProcReplyType)
  | info (message : Info)
  deriving DecidableEq, Repr

/-- What the server is answered while it handles a request: the inode numbers of `dir_lookup`, and
the pid of `proc_alloc`. -/
structure Answers where
  dirLookup : ℤ → List UInt8 → ℤ
  pid : ℤ

/-- The variables of `sys_proc.c`.  `shell_waiting` is not initialised. -/
structure SysProc where
  appIno : ℤ
  appPid : ℤ
  shellWaiting : Bool
  deriving DecidableEq, Repr

/-- `app_spawn`. -/
def appSpawn (s : SysProc) (req : ProcRequest) (a : Answers) :
    SysProc × ProcReplyType × List Action :=
  let binIno := a.dirLookup 0 (bytes "bin/")
  let s := { s with appIno := a.dirLookup binIno (req.argv 0) }
  if s.appIno < 0 then (s, .error, [])
  else
    let argc := if req.lastChar = ampersand then req.argc - 1 else req.argc
    ({ s with appPid := a.pid }, .ok, [.elfLoad a.pid s.appIno argc, .procSetReady a.pid])

/-- The body of the loop of `main`, for a request from `sender`; it does not return from a request
of an unknown type. -/
def handle (s : SysProc) (sender : ℤ) (req : ProcRequest) (a : Answers) :
    Option (SysProc × List Action) :=
  match req.type with
  | .spawn =>
    let (s, type, actions) := appSpawn s req a
    let s := { s with shellWaiting := req.lastChar ≠ ampersand ∧ type = .ok }
    let info :=
      if ¬ s.shellWaiting ∧ type = .ok then [.info (.runningInBackground s.appPid)] else []
    some (s, actions ++ info ++ [.sysSend GPID_SHELL type])
  | .exit =>
    let answer :=
      if s.shellWaiting ∧ s.appPid = sender then [.sysSend GPID_SHELL req.type.asReply]
      else if s.appPid = sender then [.info (.backgroundTerminated sender)]
      else []
    some (s, .procFree sender :: answer)
  | .killall => some (s, [.procFree GPID_ALL])
  | .other _ => none

/-- The messages to the shell. -/
def toShell (actions : List Action) : List ProcReplyType :=
  actions.filterMap fun
    | .sysSend receiver type => if receiver = GPID_SHELL then some type else none
    | _ => none

/-! ## The server among the others -/

/-- A program that was started: its pid, whether the shell waits for it, and whether it runs. -/
structure Program where
  pid : ℤ
  foreground : Bool
  alive : Bool
  deriving DecidableEq, Repr

/-- The server, the programs it has started in their order, and whether the shell waits for one. -/
structure World where
  server : SysProc
  programs : List Program
  shellWaits : Bool

/-- What the server may be asked: the shell starts something, a program exits, the shell kills all.
-/
inductive Event where
  | spawn (argc : ℤ) (argv : ℤ → List UInt8) (answers : Answers)
  | exit (k : ℕ) (answers : Answers)
  | killall (answers : Answers)

/-- What the shell sees of its request and the reply: whether it now waits for a program. -/
def shellWaitsAfter (req : ProcRequest) (actions : List Action) : Bool :=
  req.lastChar ≠ ampersand ∧ (toShell actions).head? = some .ok

/-- One request is handled.  The program that was started, if the reply says so, is the last one of
the list; a waiting shell waits until a message comes. -/
def step (w : World) : Event → Option (World × List Action)
  | .spawn argc argv a =>
    let req : ProcRequest := ⟨.spawn, argc, argv⟩
    match handle w.server GPID_SHELL req a with
    | none => none
    | some (server, actions) =>
      let started := if (toShell actions).head? = some .ok then
        [⟨a.pid, req.lastChar ≠ ampersand, true⟩] else []
      some (⟨server, w.programs ++ started, shellWaitsAfter req actions⟩, actions)
  | .exit k a =>
    match w.programs[k]? with
    | none => none
    | some p =>
      match handle w.server p.pid ⟨.exit, 0, fun _ => []⟩ a with
      | none => none
      | some (server, actions) =>
        some (⟨server, w.programs.set k { p with alive := false },
          w.shellWaits && (toShell actions).isEmpty⟩, actions)
  | .killall a =>
    match handle w.server GPID_SHELL ⟨.killall, 0, fun _ => []⟩ a with
    | none => none
    | some (server, actions) =>
      some (⟨server, w.programs.map fun p => { p with alive := false }, w.shellWaits⟩, actions)

/-- What the others keep to.  The shell starts something only when it does not wait, and names it;
the kernel's new pid is that of no program that runs; a program that exits runs.  Nothing is killed
otherwise. -/
def Protocol (w : World) : Event → Prop
  | .spawn argc _ a =>
    w.shellWaits = false ∧ 1 ≤ argc ∧ ∀ p ∈ w.programs, p.alive = true → p.pid ≠ a.pid
  | .exit k _ => ∃ p, w.programs[k]? = some p ∧ p.alive = true
  | .killall _ => False

/-- The server when the shell is started, with whatever is in the flag. -/
def World.init (shellWaiting : Bool) : World := ⟨⟨0, 0, shellWaiting⟩, [], false⟩

/-! ## One request -/

variable {w w' : World} {s s' : SysProc} {req : ProcRequest} {a : Answers} {acts : List Action}
  {is : List Event} {os : List (List Action)} {k : ℕ} {p : Program} {sender : ℤ}

/-- `app_spawn` tells nobody.  If it fails the pid is the old one, and if it succeeds the new one.
-/
theorem appSpawn_cases (s : SysProc) (req : ProcRequest) (a : Answers) :
    toShell (appSpawn s req a).2.2 = [] ∧
      (((appSpawn s req a).2.1 = .error ∧ (appSpawn s req a).1.appPid = s.appPid) ∨
        ((appSpawn s req a).2.1 = .ok ∧ (appSpawn s req a).1.appPid = a.pid)) := by
  unfold appSpawn
  dsimp only
  by_cases hino : a.dirLookup (a.dirLookup 0 (bytes "bin/")) (req.argv 0) < 0
  · rw [if_pos hino]
    exact ⟨rfl, Or.inl ⟨rfl, rfl⟩⟩
  · rw [if_neg hino]
    exact ⟨rfl, Or.inr ⟨rfl, rfl⟩⟩

/-- A start: one reply.  A start that fails leaves the pid and clears the flag; one that succeeds
sets both. -/
theorem handle_spawn (hreq : req.type = .spawn) (h : handle s sender req a = some (s', acts)) :
    (toShell acts = [.error] ∧ s'.appPid = s.appPid ∧ s'.shellWaiting = false) ∨
    (toShell acts = [.ok] ∧ s'.appPid = a.pid ∧
      s'.shellWaiting = decide (req.lastChar ≠ ampersand)) := by
  obtain ⟨hquiet, hcases⟩ := appSpawn_cases s req a
  unfold handle at h
  rw [hreq] at h
  generalize appSpawn s req a = spawned at h hquiet hcases
  obtain ⟨t, type, actions⟩ := spawned
  dsimp only at h hquiet hcases
  obtain ⟨rfl, rfl⟩ := Prod.mk.inj (Option.some.inj h)
  -- the line that is printed is no message
  have hsent (c : Prop) [Decidable c] (i : Info) :
      toShell (actions ++ (if c then [.info i] else []) ++ [.sysSend GPID_SHELL type]) =
        [type] := by
    unfold toShell at hquiet ⊢
    rw [List.filterMap_append, List.filterMap_append, hquiet]
    split_ifs <;> rfl
  rcases hcases with ⟨rfl, hpid⟩ | ⟨rfl, hpid⟩
  · exact Or.inl ⟨hsent _ _, hpid, by simp⟩
  · exact Or.inr ⟨hsent _ _, hpid, by simp⟩

/-- An exit: a message exactly if the flag is set and the pid is the one remembered, and nothing is
forgotten. -/
theorem handle_exit (hreq : req.type = .exit) (h : handle s sender req a = some (s', acts)) :
    s' = s ∧ toShell acts = if s.shellWaiting = true ∧ s.appPid = sender then [.error] else [] := by
  unfold handle at h
  rw [hreq] at h
  obtain ⟨rfl, rfl⟩ := Prod.mk.inj (Option.some.inj h)
  refine ⟨rfl, ?_⟩
  split_ifs <;> simp [toShell, ProcRequestType.asReply]

/-- Everything a step of the protocol can do: a start that fails, a start that succeeds, an exit. -/
theorem step_cases {e : Event} (hC : Protocol w e) (h : step w e = some (w', acts)) :
    (∃ argc argv a, e = .spawn argc argv a ∧ toShell acts = [.error] ∧
      w'.server.appPid = w.server.appPid ∧ w'.server.shellWaiting = false ∧
      w'.programs = w.programs ∧ w'.shellWaits = false) ∨
    (∃ argc argv a fg, e = .spawn argc argv a ∧ toShell acts = [.ok] ∧
      w'.server.appPid = a.pid ∧ w'.server.shellWaiting = fg ∧
      w'.programs = w.programs ++ [⟨a.pid, fg, true⟩] ∧ w'.shellWaits = fg) ∨
    (∃ k a p, e = .exit k a ∧ w.programs[k]? = some p ∧ p.alive = true ∧ w'.server = w.server ∧
      w'.programs = w.programs.set k { p with alive := false } ∧
      toShell acts =
        (if w.server.shellWaiting = true ∧ w.server.appPid = p.pid then [.error] else []) ∧
      w'.shellWaits = (w.shellWaits && (toShell acts).isEmpty)) := by
  cases e with
  | spawn argc argv a =>
    rw [step] at h
    dsimp only at h
    split at h
    · exact absurd h (by simp)
    · rename_i server actions hh
      obtain ⟨rfl, rfl⟩ := Prod.mk.inj (Option.some.inj h)
      rcases handle_spawn rfl hh with ⟨hsh, hpid, hflag⟩ | ⟨hsh, hpid, hflag⟩
      · refine Or.inl ⟨argc, argv, a, rfl, hsh, hpid, hflag, ?_, ?_⟩
        · simp [hsh]
        · simp [shellWaitsAfter, hsh]
      · refine Or.inr (Or.inl ⟨argc, argv, a, _, rfl, hsh, hpid, hflag, ?_, ?_⟩)
        · simp [hsh]
        · simp [shellWaitsAfter, hsh]
  | exit k a =>
    obtain ⟨p, hp, halive⟩ := hC
    rw [step, hp] at h
    dsimp only at h
    split at h
    · exact absurd h (by simp)
    · rename_i server actions hh
      obtain ⟨rfl, rfl⟩ := Prod.mk.inj (Option.some.inj h)
      obtain ⟨hs, hsh⟩ := handle_exit rfl hh
      exact Or.inr (Or.inr ⟨k, a, p, rfl, hp, halive, hs, rfl, hsh, rfl⟩)
  | killall a => exact absurd hC id

/-! ## The invariant -/

/-- What the two variables are worth.  A running program is in the foreground exactly if the flag is
set and the pid is its own; there is at most one; and the shell waits exactly if there is one. -/
structure Synchronised (w : World) : Prop where
  remembered : ∀ p ∈ w.programs, p.alive = true →
    (p.foreground = true ↔ w.server.shellWaiting = true ∧ w.server.appPid = p.pid)
  distinct : ∀ (i j : ℕ) (p q : Program), w.programs[i]? = some p → w.programs[j]? = some q →
    p.alive = true → q.alive = true → p.pid = q.pid → i = j
  waits : w.shellWaits = true ↔ ∃ p ∈ w.programs, p.alive = true ∧ p.foreground = true

theorem synchronised_init (flag : Bool) : Synchronised (World.init flag) where
  remembered := by simp [World.init]
  distinct := by simp [World.init]
  waits := by simp [World.init]

/-- When the shell does not wait, no running program is in the foreground. -/
theorem Synchronised.background (h : Synchronised w) (hw : w.shellWaits = false) :
    ∀ p ∈ w.programs, p.alive = true → p.foreground = false := by
  intro p hp halive
  by_contra hfg
  have := h.waits.mpr ⟨p, hp, halive, by simpa using hfg⟩
  rw [hw] at this
  exact absurd this (by decide)

/-- A start that fails clears the flag, and nothing that runs is in the foreground. -/
theorem Synchronised.spawn_fails (h : Synchronised w) (hw : w.shellWaits = false)
    (hflag : w'.server.shellWaiting = false) (hprograms : w'.programs = w.programs)
    (hw' : w'.shellWaits = false) : Synchronised w' where
  remembered := by
    intro p hp halive
    rw [hprograms] at hp
    rw [h.background hw p hp halive, hflag]
    simp
  distinct := by
    rw [hprograms]
    exact h.distinct
  waits := by
    rw [hw', ← hw, hprograms]
    exact h.waits

/-- A start that succeeds makes its program the one that is remembered. -/
theorem Synchronised.spawn_succeeds {pid : ℤ} {fg : Bool} (h : Synchronised w)
    (hw : w.shellWaits = false) (hfresh : ∀ p ∈ w.programs, p.alive = true → p.pid ≠ pid)
    (hpid : w'.server.appPid = pid) (hflag : w'.server.shellWaiting = fg)
    (hprograms : w'.programs = w.programs ++ [⟨pid, fg, true⟩]) (hw' : w'.shellWaits = fg) :
    Synchronised w' where
  remembered := by
    intro p hp halive
    rw [hprograms, List.mem_append, List.mem_singleton] at hp
    rw [hpid, hflag]
    rcases hp with hp | rfl
    · have hne := hfresh p hp halive
      rw [h.background hw p hp halive]
      simp [hne.symm]
    · simp
  distinct := by
    -- the new program is the last one, and no running program before it has its pid
    have hold {i : ℕ} {p : Program} (hi : (w.programs ++ [⟨pid, fg, true⟩])[i]? = some p) :
        w.programs[i]? = some p ∨ i = w.programs.length ∧ p.pid = pid := by
      rcases lt_trichotomy i w.programs.length with hlt | rfl | hgt
      · rw [List.getElem?_append_left hlt] at hi
        exact Or.inl hi
      · rw [List.getElem?_concat_length] at hi
        exact Or.inr ⟨rfl, by rw [← Option.some.inj hi]⟩
      · rw [List.getElem?_eq_none (by simp; omega)] at hi
        exact absurd hi (by simp)
    intro i j p q hi hj hp hq hpq
    rw [hprograms] at hi hj
    rcases hold hi with hi | ⟨rfl, hpp⟩ <;> rcases hold hj with hj | ⟨rfl, hqq⟩
    · exact h.distinct i j p q hi hj hp hq hpq
    · exact absurd (hpq.trans hqq) (hfresh p (List.mem_of_getElem? hi) hp)
    · exact absurd (hpq.symm.trans hpp) (hfresh q (List.mem_of_getElem? hj) hq)
    · rfl
  waits := by
    rw [hw', hprograms]
    constructor
    · intro hfg
      exact ⟨⟨pid, fg, true⟩, by simp, rfl, hfg⟩
    · rintro ⟨p, hp, halive, hfg⟩
      rw [List.mem_append, List.mem_singleton] at hp
      rcases hp with hp | rfl
      · rw [h.background hw p hp halive] at hfg
        exact absurd hfg (by decide)
      · exact hfg

/-- An exit: the message is for the program the shell waits for. -/
theorem Synchronised.exit (h : Synchronised w) (hp : w.programs[k]? = some p)
    (halive : p.alive = true) (hserver : w'.server = w.server)
    (hprograms : w'.programs = w.programs.set k { p with alive := false })
    (hw' : w'.shellWaits = (w.shellWaits && !p.foreground)) : Synchronised w' := by
  -- what still runs is what ran before, except for the program that exits
  have hold {i : ℕ} {q : Program} (hi : w'.programs[i]? = some q) (hq : q.alive = true) :
      i ≠ k ∧ w.programs[i]? = some q := by
    rw [hprograms] at hi
    by_cases hik : i = k
    · subst hik
      rw [List.getElem?_set_self (List.getElem?_eq_some_iff.mp hp).1] at hi
      rw [← Option.some.inj hi] at hq
      exact absurd hq (by simp)
    · rw [List.getElem?_set_ne (Ne.symm hik)] at hi
      exact ⟨hik, hi⟩
  have hnew {i : ℕ} {q : Program} (hik : i ≠ k) (hi : w.programs[i]? = some q) :
      q ∈ w'.programs := by
    rw [hprograms]
    refine List.mem_of_getElem? (i := i) ?_
    rw [List.getElem?_set_ne (Ne.symm hik), hi]
  refine ⟨fun q hq hqa => ?_, fun i j q r hi hj hq hr => ?_, ?_⟩
  · obtain ⟨i, hi⟩ := List.mem_iff_getElem?.mp hq
    rw [hserver]
    exact h.remembered q (List.mem_of_getElem? (hold hi hqa).2) hqa
  · exact h.distinct i j q r (hold hi hq).2 (hold hj hr).2 hq hr
  · rw [hw', Bool.and_eq_true, Bool.not_eq_true', h.waits]
    constructor
    · rintro ⟨⟨q, hq, hqa, hqf⟩, hpf⟩
      obtain ⟨i, hi⟩ := List.mem_iff_getElem?.mp hq
      refine ⟨q, hnew ?_ hi, hqa, hqf⟩
      rintro rfl
      rw [Option.some.inj (hp.symm.trans hi), hqf] at hpf
      exact absurd hpf (by decide)
    · rintro ⟨q, hq, hqa, hqf⟩
      obtain ⟨i, hi⟩ := List.mem_iff_getElem?.mp hq
      obtain ⟨hik, hi⟩ := hold hi hqa
      have hqm := List.mem_of_getElem? hi
      refine ⟨⟨q, hqm, hqa, hqf⟩, ?_⟩
      by_contra hpf
      -- two running foreground programs would both have the pid that is remembered
      have hpp := ((h.remembered p (List.mem_of_getElem? hp) halive).mp (by simpa using hpf)).2
      have hqp := ((h.remembered q hqm hqa).mp hqf).2
      exact hik (h.distinct i k q p hi hp hqa halive (hqp.symm.trans hpp))

/-- The server sends for the exit of a running program exactly if it is in the foreground. -/
theorem Synchronised.message (h : Synchronised w) (hp : w.programs[k]? = some p)
    (halive : p.alive = true) :
    (if w.server.shellWaiting = true ∧ w.server.appPid = p.pid then [ProcReplyType.error] else []) =
      if p.foreground = true then [ProcReplyType.error] else [] := by
  have hiff := h.remembered p (List.mem_of_getElem? hp) halive
  simp only [hiff]

theorem synchronised_step {e : Event} (h : Synchronised w) (hC : Protocol w e)
    (hs : step w e = some (w', acts)) : Synchronised w' := by
  rcases step_cases hC hs with ⟨argc, argv, a, rfl, -, -, hflag, hprograms, hw'⟩ |
    ⟨argc, argv, a, fg, rfl, -, hpid, hflag, hprograms, hw'⟩ |
    ⟨k, a, p, rfl, hp, halive, hserver, hprograms, hsh, hw'⟩
  · exact h.spawn_fails hC.1 hflag hprograms hw'
  · exact h.spawn_succeeds hC.1 hC.2.2 hpid hflag hprograms hw'
  · refine h.exit hp halive hserver hprograms ?_
    rw [hw', hsh, h.message hp halive]
    by_cases hfg : p.foreground = true <;> simp [hfg]

/-! ## Runs -/

/-- What a request is answered with, given the programs: one reply for a start; for an exit one
message if the program was started in the foreground, and nothing otherwise. -/
def Answered (programs : List Program) : Event → List Action → Prop
  | .spawn _ _ _, actions => ∃ type, toShell actions = [type]
  | .exit k _, actions => ∃ p, programs[k]? = some p ∧
      toShell actions = if p.foreground = true then [.error] else []
  | .killall _, _ => False

/-- The request is the exit of program `k`. -/
def Event.isExit (k : ℕ) : Event → Bool
  | .exit j _ => j = k
  | _ => false

/-- Programs are added, and whether one is in the foreground never changes. -/
theorem Answered.mono {programs programs' : List Program} {e : Event}
    (h : Answered programs e acts) (hkeep : ∀ (k : ℕ) (p : Program), programs[k]? = some p →
      ∃ p', programs'[k]? = some p' ∧ p'.foreground = p.foreground) :
    Answered programs' e acts := by
  cases e with
  | spawn argc argv a => exact h
  | exit k a =>
    obtain ⟨p, hp, hsh⟩ := h
    obtain ⟨p', hp', hfg⟩ := hkeep k p hp
    exact ⟨p', hp', by rw [hfg]; exact hsh⟩
  | killall a => exact h

/-- A step keeps the programs there are at their places, in the foreground or not. -/
theorem programs_step {e : Event} (hC : Protocol w e) (hs : step w e = some (w', acts))
    (hp : w.programs[k]? = some p) :
    ∃ p', w'.programs[k]? = some p' ∧ p'.foreground = p.foreground := by
  have hlt := (List.getElem?_eq_some_iff.mp hp).1
  rcases step_cases hC hs with ⟨argc, argv, a, rfl, -, -, -, hprograms, -⟩ |
    ⟨argc, argv, a, fg, rfl, -, -, -, hprograms, -⟩ |
    ⟨j, a, q, rfl, hq, -, -, hprograms, -, -⟩
  · exact ⟨p, by rw [hprograms, hp], rfl⟩
  · exact ⟨p, by rw [hprograms, List.getElem?_append_left hlt, hp], rfl⟩
  · by_cases hkj : k = j
    · subst hkj
      refine ⟨{ q with alive := false }, ?_, ?_⟩
      · rw [hprograms, List.getElem?_set_self hlt]
      · rw [Option.some.inj (hp.symm.trans hq)]
    · exact ⟨p, by rw [hprograms, List.getElem?_set_ne (Ne.symm hkj), hp], rfl⟩

/-- A step is answered as it should be. -/
theorem answered_step {e : Event} (h : Synchronised w) (hC : Protocol w e)
    (hs : step w e = some (w', acts)) : Answered w'.programs e acts := by
  rcases step_cases hC hs with ⟨argc, argv, a, rfl, hsh, -⟩ | ⟨argc, argv, a, fg, rfl, hsh, -⟩ |
    ⟨j, a, p, rfl, hp, halive, -, -, hsh, -⟩
  · exact ⟨_, hsh⟩
  · exact ⟨_, hsh⟩
  · obtain ⟨p', hp', hfg⟩ := programs_step hC hs hp
    refine ⟨p', hp', ?_⟩
    rw [hsh, h.message hp halive, hfg]

/-- How often a program has exited: once if it does not run any more. -/
def World.exits (w : World) (k : ℕ) : ℕ :=
  ((w.programs[k]?).map fun p => if p.alive = true then 0 else 1).getD 0

/-- A step counts the exit it is. -/
theorem exits_step {e : Event} (hC : Protocol w e) (hs : step w e = some (w', acts)) (k : ℕ) :
    w'.exits k = w.exits k + if e.isExit k = true then 1 else 0 := by
  unfold World.exits
  rcases step_cases hC hs with ⟨argc, argv, a, rfl, -, -, -, hprograms, -⟩ |
    ⟨argc, argv, a, fg, rfl, -, -, -, hprograms, -⟩ |
    ⟨j, a, p, rfl, hp, halive, -, hprograms, -, -⟩
  · rw [hprograms]
    simp [Event.isExit]
  · rw [hprograms]
    rcases lt_trichotomy k w.programs.length with hlt | rfl | hgt
    · rw [List.getElem?_append_left hlt]
      simp [Event.isExit]
    · simp [Event.isExit]
    · have hout : (w.programs ++ [(⟨a.pid, fg, true⟩ : Program)]).length ≤ k := by
        rw [List.length_append, List.length_singleton]
        omega
      rw [List.getElem?_eq_none hout, List.getElem?_eq_none (by omega)]
      simp [Event.isExit]
  · rw [hprograms]
    by_cases hkj : k = j
    · subst hkj
      rw [List.getElem?_set_self (List.getElem?_eq_some_iff.mp hp).1, hp]
      simp [Event.isExit, halive]
    · rw [List.getElem?_set_ne (Ne.symm hkj)]
      simp [Event.isExit, Ne.symm hkj]

/-- **The foreground protocol.**  In every run in which the others keep to the protocol: every start
is answered with one reply, every exit of a program that was started in the foreground with one
message, and every exit of a background program with none; a program has exited once if it does not
run any more, and not at all if it does; and the shell waits exactly while a foreground program
runs. -/
theorem foreground_protocol {flag : Bool} (h : Run step Protocol (World.init flag) is os w) :
    List.Forall₂ (Answered w.programs) is os ∧
      (∀ k, is.countP (Event.isExit k) =
        ((w.programs[k]?).map fun p => if p.alive = true then 0 else 1).getD 0) ∧
      (w.shellWaits = true ↔ ∃ p ∈ w.programs, p.alive = true ∧ p.foreground = true) := by
  suffices hinv : List.Forall₂ (Answered w.programs) is os ∧
      (∀ k, is.countP (Event.isExit k) = w.exits k) ∧ Synchronised w from
    ⟨hinv.1, hinv.2.1, hinv.2.2.waits⟩
  induction h with
  | nil => exact ⟨List.Forall₂.nil, by simp [World.init, World.exits], synchronised_init flag⟩
  | @snoc is os w w' e acts _ hC hs ih =>
    obtain ⟨hans, hcount, hsync⟩ := ih
    refine ⟨?_, fun k => ?_, synchronised_step hsync hC hs⟩
    · have hbefore : List.Forall₂ (Answered w'.programs) is os :=
        hans.imp fun _ _ hanswered => hanswered.mono fun _ _ hp => programs_step hC hs hp
      have hlast := answered_step hsync hC hs
      exact List.rel_append hbefore (List.Forall₂.cons hlast List.Forall₂.nil)
    · rw [List.countP_append, hcount k, exits_step hC hs, List.countP_singleton]

/-- A file server that has everything under inode 9, and a kernel that gives out the pid 7. -/
def answersSeven : Answers := ⟨fun _ _ => 9, 7⟩

/-- A program in the foreground exits, then one in the background that was given the same pid. -/
def reusedPid : List Event :=
  [.spawn 1 (fun _ => bytes "ls") answersSeven, .exit 0 answersSeven,
    .spawn 2 (fun k => if k = 1 then bytes "&" else bytes "ls") answersSeven, .exit 1 answersSeven]

instance (w : World) (e : Event) : Decidable (Protocol w e) :=
  match e with
  | .spawn argc _ a =>
    inferInstanceAs (Decidable (w.shellWaits = false ∧ 1 ≤ argc ∧
      ∀ p ∈ w.programs, p.alive = true → p.pid ≠ a.pid))
  | .exit k _ =>
    decidable_of_iff ((w.programs[k]?).any (·.alive) = true)
      (by simp [Protocol, Option.any_eq_true])
  | .killall _ => isFalse id

theorem foreground_protocol_reused : ∃ w os,
    Run step Protocol (World.init true) reusedPid os w ∧
      os.map toShell = [[.ok], [.error], [.ok], []] ∧
      List.Forall₂ (Answered w.programs) reusedPid os := by
  have hex : ((exec (guarded step Protocol) (World.init true) reusedPid).map fun p =>
      p.2.map toShell) = some [[.ok], [.error], [.ok], []] := by
    decide
  obtain ⟨⟨w, os⟩, hrun, hos⟩ := Option.map_eq_some_iff.mp hex
  have hprotocol := run_of_exec_guarded hrun
  exact ⟨w, os, hprotocol, hos, (foreground_protocol hprotocol).1⟩

end Apps
end EgosNet
