import EgosNet.Service.ArpCache

/-!
# An address table that ages

`uip_arp.c` has a clock of its own, `arptime`, which `uip_arp_timer` advances; every entry of the
table remembers when it was written.  The timer drops the entries that are too old, and
`uip_arp_update` throws the oldest one away when the table is full.  The service never calls
`uip_arp_timer`.  This file is about the table if somebody does, in any order with the lessons: and
about the clock, which has 8 bits.

`arptime - tabptr->time` is an `int`, so an entry that was written before the clock went round has a
negative age.

* `arp_ages`: what stands in the table for an address is what was taught last, however the timer
  calls and the lessons are mixed; and an entry is dropped in exactly the 120th call after its
  lesson, if the clock stood at 135 or less when it was taught, and otherwise in none.
* `evicts_longest_silent`: as long as the clock has not gone round, the host that has to leave a
  full table is one that has been silent for longest.
* `arp_standing`: with a clock that stands still this table is the one of the service.
-/

namespace EgosNet
namespace Service

open Foundation Uip

/-! ## Events -/

/-- What happens to the table. -/
inductive ArpEvent where
  | lesson (ipaddr : Word32) (ethaddr : EthAddr)
  | timer
  deriving DecidableEq

def arpStep (s : AgedTable) : ArpEvent → AgedTable
  | .lesson ipaddr ethaddr => agedUpdate s ipaddr ethaddr
  | .timer => uipArpTimer s

/-- The table after some events, the latest first. -/
def arpAfter : List ArpEvent → AgedTable
  | [] => {}
  | e :: es => arpStep (arpAfter es) e

/-! ## What the events say -/

/-- The lessons among the events. -/
def taught : List ArpEvent → List (Word32 × EthAddr)
  | [] => []
  | .lesson ipaddr ethaddr :: es => (ipaddr, ethaddr) :: taught es
  | .timer :: es => taught es

/-- The calls of the timer. -/
def ticks : List ArpEvent → ℕ
  | [] => 0
  | .lesson _ _ :: es => ticks es
  | .timer :: es => ticks es + 1

/-- The calls of the timer since a host was last heard of. -/
def silence (ipaddr : Word32) : List ArpEvent → Option ℕ
  | [] => none
  | .lesson ip _ :: es => if ip = ipaddr then some 0 else silence ipaddr es
  | .timer :: es => (silence ipaddr es).map (· + 1)

theorem silence_le {ipaddr : Word32} {es : List ArpEvent} {n : ℕ} (h : silence ipaddr es = some n) :
    n ≤ ticks es := by
  induction es generalizing n with
  | nil => simp [silence] at h
  | cons e es ih =>
    cases e with
    | lesson ip ethaddr =>
      rw [silence] at h
      split_ifs at h
      · obtain rfl := Option.some.inj h
        exact Nat.zero_le _
      · exact ih h
    | timer =>
      obtain ⟨m, hm, rfl⟩ := Option.map_eq_some_iff.mp h
      exact Nat.succ_le_succ (ih hm)

/-! ## The entry that has to leave -/

section Oldest

variable {s : AgedTable} {l : List (Fin 8)} {tmpage : UInt8} {c : Fin 8}

/-- A positive age fits into 8 bits. -/
theorem toNat_age {arptime time : UInt8} (h : 0 < age arptime time) :
    ((arptime - time).toNat : ℤ) = age arptime time := by
  unfold age at h ⊢
  rw [UInt8.toNat_sub_of_le _ _ (UInt8.le_iff_toNat_le.mpr (by omega))]
  omega

/-- **No entry is older than the one that the loop finds**, unless none has a positive age. -/
theorem oldest_spec (hc : (tmpage.toNat : ℤ) ≤ max 0 (age s.arptime (s.table c).time)) :
    let r := oldest s tmpage c l
    (tmpage.toNat : ℤ) ≤ max 0 (age s.arptime (s.table r).time) ∧
      ∀ j ∈ l, age s.arptime (s.table j).time ≤ max 0 (age s.arptime (s.table r).time) := by
  induction l generalizing tmpage c with
  | nil => exact ⟨hc, by simp⟩
  | cons i is ih =>
    unfold oldest
    split_ifs with hold
    · have hfits := toNat_age (show 0 < age s.arptime (s.table i).time by omega)
      obtain ⟨hthis, hrest⟩ := ih (c := i) (hfits.le.trans (le_max_right _ _))
      rw [hfits] at hthis
      refine ⟨hold.le.trans hthis, fun j hj => ?_⟩
      rcases List.mem_cons.mp hj with rfl | hj
      · exact hthis
      · exact hrest j hj
    · obtain ⟨hthis, hrest⟩ := ih hc
      refine ⟨hthis, fun j hj => ?_⟩
      rcases List.mem_cons.mp hj with rfl | hj
      · exact (not_lt.mp hold).trans hthis
      · exact hrest j hj

/-- If no entry has a positive age, it is the one the loop starts from. -/
theorem oldest_of_nonpos (h : ∀ j ∈ l, age s.arptime (s.table j).time ≤ 0) :
    oldest s tmpage c l = c := by
  induction l with
  | nil => rfl
  | cons i is ih =>
    have hi := h i List.mem_cons_self
    unfold oldest
    rw [if_neg (by omega)]
    exact ih fun j hj => h j (List.mem_cons_of_mem i hj)

end Oldest

/-! ## What a lesson does -/

section Update

variable {s : AgedTable} {ipaddr : Word32} {ethaddr : EthAddr}

/-- **Where a lesson goes.** -/
theorem agedUpdate_place (s : AgedTable) (ipaddr : Word32) (ethaddr : EthAddr) :
    ∃ i, agedUpdate s ipaddr ethaddr =
        { s with table := Function.update s.table i ⟨⟨ipaddr, ethaddr⟩, s.arptime⟩ } ∧
      (∀ j, usable ipaddr → (s.table j).ipaddr = ipaddr → (s.table i).ipaddr = ipaddr) ∧
      ((s.table i).ipaddr = ipaddr ∨ (s.table i).ipaddr = ⟨0, 0, 0, 0⟩ ∨
        i = oldest s 0 0 (List.finRange 8)) := by
  unfold agedUpdate
  split
  · rename_i i hi
    have hfound := List.find?_some hi
    simp only [Bool.decide_and, Bool.and_eq_true, decide_eq_true_eq] at hfound
    obtain ⟨-, heq⟩ := hfound
    refine ⟨i, ?_, fun _ _ _ => heq.symm, .inl heq.symm⟩
    rw [heq]
  · rename_i hnone
    have hother : ∀ j, usable ipaddr → (s.table j).ipaddr ≠ ipaddr := by
      intro j husable hip
      have hmiss := List.find?_eq_none.mp hnone j (List.mem_finRange j)
      have hused : (s.table j).used = true := (used_iff _).mpr (hip ▸ husable)
      exact hmiss (by simpa [hused] using hip.symm)
    split
    · rename_i i hi
      have hempty : (s.table i).ipaddr = ⟨0, 0, 0, 0⟩ := by simpa using List.find?_some hi
      exact ⟨i, rfl, fun j hu hj => absurd hj (hother j hu), .inr (.inl hempty)⟩
    · exact ⟨_, rfl, fun j hu hj => absurd hj (hother j hu), .inr (.inr rfl)⟩

/-- With a clock that stands still, the entry that has to leave is the first, as in the table of the
service. -/
theorem agedUpdate_forget (h : ∀ j, age s.arptime (s.table j).time ≤ 0) :
    (agedUpdate s ipaddr ethaddr).forget = uipArpUpdate s.forget ipaddr ethaddr := by
  have hupdate : ∀ i (e : AgedEntry),
      AgedTable.forget { s with table := Function.update s.table i e } =
        Function.update s.forget i e.toArpEntry := by
    intro i e
    funext j
    by_cases hj : j = i
    · subst hj
      simp [AgedTable.forget]
    · simp [AgedTable.forget, hj]
  unfold agedUpdate uipArpUpdate
  cases hfind : (List.finRange 8).find? fun i =>
      decide ((s.table i).used ∧ ipaddr = (s.table i).ipaddr) with
  | some i =>
    have hfind' : ((List.finRange 8).find? fun i =>
      decide ((s.forget i).used ∧ ipaddr = (s.forget i).ipaddr)) = some i := hfind
    rw [hfind']
    exact hupdate i _
  | none =>
    have hfind' : ((List.finRange 8).find? fun i =>
      decide ((s.forget i).used ∧ ipaddr = (s.forget i).ipaddr)) = none := hfind
    rw [hfind']
    cases hempty : (List.finRange 8).find? fun i =>
        decide ((s.table i).ipaddr = ⟨0, 0, 0, 0⟩) with
    | some i =>
      have hempty' : ((List.finRange 8).find? fun i =>
        decide ((s.forget i).ipaddr = ⟨0, 0, 0, 0⟩)) = some i := hempty
      rw [hempty']
      exact hupdate i _
    | none =>
      have hempty' : ((List.finRange 8).find? fun i =>
        decide ((s.forget i).ipaddr = ⟨0, 0, 0, 0⟩)) = none := hempty
      rw [hempty', oldest_of_nonpos fun j _ => h j]
      exact hupdate 0 _

end Update

/-! ## Every run -/

/-- The table `s` after the events `es`. -/
structure Ages (s : AgedTable) (es : List ArpEvent) : Prop where
  clock : s.arptime = UInt8.ofNat (ticks es)
  current : Consistent usable (pairs s.forget) (taught es)
  since : ∀ i, usable (s.table i).ipaddr → ∃ n, silence (s.table i).ipaddr es = some n ∧
    (s.table i).time = UInt8.ofNat (ticks es - n) ∧ ((s.table i).time.toNat ≤ 135 → n < 120)

section Runs

variable {s : AgedTable} {es : List ArpEvent}

/-- **When the timer drops an entry.** -/
theorem expires_iff {time : UInt8} {t n : ℕ} (hn : n ≤ t) (htime : time = UInt8.ofNat (t - n))
    (hyoung : time.toNat ≤ 135 → n < 120) :
    UIP_ARP_MAXAGE ≤ age (UInt8.ofNat t + 1) time ↔ time.toNat ≤ 135 ∧ n = 119 := by
  have hclock : (UInt8.ofNat t + 1).toNat = (t + 1) % 256 := by
    rw [UInt8.toNat_add]
    simp
  have hwhen : time.toNat = (t - n) % 256 := by
    rw [htime]
    simp
  unfold age UIP_ARP_MAXAGE
  rw [hclock]
  omega

theorem not_usable_zero : ¬ usable ⟨0, 0, 0, 0⟩ := by simp [usable]

/-- What the timer does to an entry in use. -/
theorem uipArpTimer_entry {i : Fin 8} (hi : usable (s.table i).ipaddr) :
    (UIP_ARP_MAXAGE ≤ age (s.arptime + 1) (s.table i).time ∧
        ((uipArpTimer s).table i).ipaddr = ⟨0, 0, 0, 0⟩) ∨
      ¬ UIP_ARP_MAXAGE ≤ age (s.arptime + 1) (s.table i).time ∧
        (uipArpTimer s).table i = s.table i := by
  have hne : (s.table i).ipaddr ≠ ⟨0, 0, 0, 0⟩ := fun hzero => not_usable_zero (hzero ▸ hi)
  by_cases hold : UIP_ARP_MAXAGE ≤ age (s.arptime + 1) (s.table i).time
  · exact .inl ⟨hold, by simp [uipArpTimer, hne, hold]⟩
  · exact .inr ⟨hold, by simp [uipArpTimer, hold]⟩

/-- What is in use after the timer was so before. -/
theorem usable_of_timer {i : Fin 8} (hi : usable ((uipArpTimer s).table i).ipaddr) :
    usable (s.table i).ipaddr := by
  unfold uipArpTimer at hi
  dsimp only at hi
  split_ifs at hi
  · exact absurd hi not_usable_zero
  · exact hi

/-- **The timer keeps the invariant.** -/
theorem ages_timer (h : Ages s es) : Ages (uipArpTimer s) (.timer :: es) := by
  obtain ⟨hclock, hcurrent, hsince⟩ := h
  have hkept : ∀ i, usable ((uipArpTimer s).table i).ipaddr →
      ¬ UIP_ARP_MAXAGE ≤ age (s.arptime + 1) (s.table i).time ∧
        (uipArpTimer s).table i = s.table i := by
    intro i hi
    rcases uipArpTimer_entry (usable_of_timer hi) with ⟨-, hzero⟩ | hkept
    · exact absurd (hzero ▸ hi) not_usable_zero
    · exact hkept
  refine ⟨?_, hcurrent.forget fun i hi => ?_, fun i hi => ?_⟩
  · show s.arptime + 1 = UInt8.ofNat (ticks es + 1)
    rw [hclock]
    simp
  · have heq : (uipArpTimer s).forget i = s.forget i :=
      congrArg AgedEntry.toArpEntry (hkept i hi).2
    simp only [pairs, heq]
  · obtain ⟨hyoung, heq⟩ := hkept i hi
    obtain ⟨n, hn, htime, hlimit⟩ := hsince i (usable_of_timer hi)
    rw [heq]
    refine ⟨n + 1, by rw [silence, hn]; rfl, ?_, fun hτ => ?_⟩
    · rw [htime]
      exact congrArg UInt8.ofNat (Nat.add_sub_add_right (ticks es) 1 n).symm
    · have hnot : n ≠ 119 := fun h119 =>
        hyoung (hclock ▸ (expires_iff (silence_le hn) htime hlimit).mpr ⟨hτ, h119⟩)
      have hbefore := hlimit hτ
      omega

/-- **A lesson keeps it.** -/
theorem ages_lesson (h : Ages s es) (ipaddr : Word32) (ethaddr : EthAddr) :
    Ages (agedUpdate s ipaddr ethaddr) (.lesson ipaddr ethaddr :: es) := by
  obtain ⟨hclock, hcurrent, hsince⟩ := h
  obtain ⟨i, heq, hsame, -⟩ := agedUpdate_place s ipaddr ethaddr
  have hother : ∀ j, j ≠ i → usable ipaddr → (s.table j).ipaddr ≠ ipaddr := by
    intro j hj husable hip
    have hvalid : usable (pairs s.forget j).1 := show usable (s.table j).ipaddr from hip ▸ husable
    exact hj (hcurrent.unique j i hvalid (hip.trans (hsame j husable hip).symm))
  rw [heq]
  refine ⟨hclock, ?_, fun j hj => ?_⟩
  · have hpairs : pairs (AgedTable.forget
        { s with table := Function.update s.table i ⟨⟨ipaddr, ethaddr⟩, s.arptime⟩ }) =
          Function.update (pairs s.forget) i (ipaddr, ethaddr) := by
      funext j
      by_cases hj : j = i
      · subst hj
        simp [pairs, AgedTable.forget]
      · simp [pairs, AgedTable.forget, hj]
    rw [hpairs]
    exact hcurrent.place hother
  · dsimp only at hj ⊢
    by_cases hji : j = i
    · subst hji
      rw [Function.update_self]
      exact ⟨0, by simp [silence], hclock, fun _ => by decide⟩
    · rw [Function.update_of_ne hji] at hj ⊢
      obtain ⟨n, hn, htime, hlimit⟩ := hsince j hj
      have hne : ipaddr ≠ (s.table j).ipaddr := fun hip =>
        hother j hji (hip ▸ hj) hip.symm
      exact ⟨n, by rw [silence, if_neg hne, hn], htime, hlimit⟩

theorem ages_after (es : List ArpEvent) : Ages (arpAfter es) es := by
  induction es with
  | nil =>
    have hnone : ∀ i, ¬ usable ((arpAfter []).table i).ipaddr := fun _ => not_usable_zero
    exact ⟨rfl, consistent_empty hnone, fun i hi => absurd hi (hnone i)⟩
  | cons e es ih =>
    cases e with
    | lesson ipaddr ethaddr => exact ages_lesson ih ipaddr ethaddr
    | timer => exact ages_timer ih

/-- **What the table knows, and for how long.**  After any lessons and any calls of the timer, in
any order: the Ethernet address that stands for a host is the one it was taught last.  If that was
`n` calls ago, the next call drops it exactly if this is the 120th and the clock stood at 135 or
less when it was taught; so with such a clock it is never older, and with any other it never leaves
through the timer. -/
theorem arp_ages (es : List ArpEvent) {i : Fin 8} (hi : usable ((arpAfter es).table i).ipaddr) :
    ∃ n, silence ((arpAfter es).table i).ipaddr es = some n ∧
      lastSaid (taught es) ((arpAfter es).table i).ipaddr =
        some ((arpAfter es).table i).ethaddr ∧
      ((ticks es - n) % 256 ≤ 135 → n < 120) ∧
      if (ticks es - n) % 256 ≤ 135 ∧ n = 119 then
        ((arpAfter (.timer :: es)).table i).ipaddr = ⟨0, 0, 0, 0⟩
      else (arpAfter (.timer :: es)).table i = (arpAfter es).table i := by
  obtain ⟨hclock, hcurrent, hsince⟩ := ages_after es
  obtain ⟨n, hn, htime, hlimit⟩ := hsince i hi
  have hwhen : ((arpAfter es).table i).time.toNat = (ticks es - n) % 256 := by
    rw [htime]
    simp
  have hdrop := expires_iff (silence_le hn) htime hlimit
  rw [hwhen] at hlimit
  rw [hwhen, ← hclock] at hdrop
  refine ⟨n, hn, hcurrent.sound i hi, hlimit, ?_⟩
  rcases uipArpTimer_entry hi with ⟨hold, hzero⟩ | ⟨hyoung, hkept⟩
  · rw [if_pos (hdrop.mp hold)]
    exact hzero
  · rw [if_neg (fun h => hyoung (hdrop.mpr h))]
    exact hkept

/-- The router is heard of, and then only the timer is called. -/
def heardOnce (k : ℕ) : List ArpEvent :=
  List.replicate k .timer ++ [.lesson uipDraddr broadcastEthaddr]

/-- The 120th call drops it. -/
theorem arp_ages_heardOnce :
    ((arpAfter (heardOnce 119)).table 0).ipaddr = uipDraddr ∧
      ((arpAfter (.timer :: heardOnce 119)).table 0).ipaddr = ⟨0, 0, 0, 0⟩ := by
  have hthere : ((arpAfter (heardOnce 119)).table 0).ipaddr = uipDraddr := by decide +kernel
  have hsilence : silence uipDraddr (heardOnce 119) = some 119 := by decide +kernel
  have hticks : ticks (heardOnce 119) = 119 := by decide +kernel
  have husable : usable ((arpAfter (heardOnce 119)).table 0).ipaddr := by
    rw [hthere]
    exact ⟨.inl (by decide), .inl (by decide)⟩
  obtain ⟨n, hn, -, -, hdrop⟩ := arp_ages (heardOnce 119) husable
  rw [hthere, hsilence] at hn
  obtain rfl := Option.some.inj hn
  rw [hticks, if_pos (by decide)] at hdrop
  exact ⟨hthere, hdrop⟩

/-- **Who has to leave a full table**: a host that has been silent for longest, as long as the clock
has not gone round. -/
theorem evicts_longest_silent (es : List ArpEvent) {ipaddr : Word32} (ethaddr : EthAddr)
    (hticks : ticks es < 256) (hfull : ∀ j, usable ((arpAfter es).table j).ipaddr)
    (hnew : ∀ j, ((arpAfter es).table j).ipaddr ≠ ipaddr) :
    ∃ i, (arpAfter (.lesson ipaddr ethaddr :: es)).table =
        Function.update (arpAfter es).table i ⟨⟨ipaddr, ethaddr⟩, (arpAfter es).arptime⟩ ∧
      ∃ n, silence ((arpAfter es).table i).ipaddr es = some n ∧
        ∀ j m, silence ((arpAfter es).table j).ipaddr es = some m → m ≤ n := by
  obtain ⟨hclock, -, hsince⟩ := ages_after es
  obtain ⟨i, heq, -, hplace⟩ := agedUpdate_place (arpAfter es) ipaddr ethaddr
  have hage : ∀ j m, silence ((arpAfter es).table j).ipaddr es = some m →
      age (arpAfter es).arptime ((arpAfter es).table j).time = m := by
    intro j m hm
    obtain ⟨m', hm', htime, -⟩ := hsince j (hfull j)
    obtain rfl := Option.some.inj (hm.symm.trans hm')
    have hle := silence_le hm
    have hsize : UInt8.size = 256 := rfl
    rw [age, hclock, htime, UInt8.toNat_ofNat_of_lt' (by omega),
      UInt8.toNat_ofNat_of_lt' (by omega)]
    omega
  have holdest : i = oldest (arpAfter es) 0 0 (List.finRange 8) := by
    rcases hplace with hsame | hempty | hoth
    · exact absurd hsame (hnew i)
    · exact absurd (hempty ▸ hfull i) not_usable_zero
    · exact hoth
  obtain ⟨n, hn, -⟩ := hsince i (hfull i)
  refine ⟨i, congrArg AgedTable.table heq, n, hn, fun j m hm => ?_⟩
  have hstart : ((0 : UInt8).toNat : ℤ) ≤
      max 0 (age (arpAfter es).arptime ((arpAfter es).table 0).time) := le_max_left 0 _
  have hj := (oldest_spec hstart).2 j (List.mem_finRange j)
  rw [← holdest, hage i n hn, hage j m hm] at hj
  omega

/-- Eight hosts are heard of, one after the other, the first of them once more, and then a ninth. -/
def nineHosts : List ArpEvent :=
  .timer :: .lesson ⟨10, 0, 2, 1⟩ broadcastEthaddr ::
    [8, 7, 6, 5, 4, 3, 2, 1].flatMap fun k =>
      [.timer, .lesson ⟨10, 0, 2, k⟩ broadcastEthaddr]

theorem evicts_longest_silent_nineHosts : ∃ i,
    ((arpAfter nineHosts).table i).ipaddr = ⟨10, 0, 2, 2⟩ ∧
      ((arpAfter (.lesson ⟨10, 0, 2, 9⟩ broadcastEthaddr :: nineHosts)).table i).ipaddr =
        ⟨10, 0, 2, 9⟩ := by
  have hfull : ∀ j, ((arpAfter nineHosts).table j).used = true := by decide +kernel
  have hnew : ∀ j, ((arpAfter nineHosts).table j).ipaddr ≠ ⟨10, 0, 2, 9⟩ := by decide +kernel
  have hsecond : ((arpAfter nineHosts).table 1).ipaddr = ⟨10, 0, 2, 2⟩ := by decide +kernel
  have hsilent : silence ((arpAfter nineHosts).table 1).ipaddr nineHosts = some 8 := by
    decide +kernel
  have hothers : ∀ j, j = 1 ∨
      (silence ((arpAfter nineHosts).table j).ipaddr nineHosts).getD 0 < 8 := by decide +kernel
  obtain ⟨i, heq, n, hn, hall⟩ := evicts_longest_silent nineHosts broadcastEthaddr
    (by decide +kernel) (fun j => (used_iff _).mp (hfull j)) hnew
  have hn8 : 8 ≤ n := hall 1 8 hsilent
  obtain rfl : i = 1 := by
    rcases hothers i with hi | hi
    · exact hi
    · rw [hn, Option.getD_some] at hi
      omega
  exact ⟨1, hsecond, by rw [heq, Function.update_self]⟩

end Runs

/-! ## The table of the service -/

/-- A lesson of the service, as an event. -/
def lessonEvent (l : Word32 × EthAddr) : ArpEvent := .lesson l.1 l.2

theorem ticks_lessons (ls : List (Word32 × EthAddr)) : ticks (ls.map lessonEvent) = 0 := by
  induction ls with
  | nil => rfl
  | cons l ls ih => exact ih

/-- **The table of the service is one whose clock stands still.** -/
theorem arp_standing {C : Net → Input → Prop} {is : List Input} {os : List Outcome} {n : Net}
    (hrun : Run step C Net.init is os n) :
    (arpAfter ((lessons is).map lessonEvent)).forget = n.arp := by
  induction hrun with
  | nil => rfl
  | @snoc is os n n' i o _ _ hs ih =>
    have harp := handle_arp n i
    rw [(step_spec hs).1] at harp
    have hclock := (ages_after ((lessons is).map lessonEvent)).clock
    rw [ticks_lessons] at hclock
    rw [harp, ← ih, lessons_append]
    cases lessonOf i with
    | none => rfl
    | some l =>
      show (agedUpdate (arpAfter ((lessons is).map lessonEvent)) l.1 l.2).forget = _
      refine agedUpdate_forget fun j => ?_
      rw [hclock, age]
      simp

theorem arp_standing_readdressed : ∃ os n, Run step Free Net.init readdressed os n ∧
    (n.arp 0).ethaddr.addr = [0x52, 0x55, 10, 0, 2, 3] ∧
      (arpAfter ((lessons readdressed).map lessonEvent)).forget = n.arp := by
  have hexec : (exec step Net.init readdressed).map (fun r => (r.1.arp 0).ethaddr.addr) =
      some [0x52, 0x55, 10, 0, 2, 3] := by decide +kernel
  obtain ⟨⟨n, os⟩, hr, haddr⟩ := Option.map_eq_some_iff.mp hexec
  have hrun := run_of_exec hr
  exact ⟨os, n, hrun, haddr, arp_standing hrun⟩

end Service
end EgosNet
