import EgosNet.Foundation.LineEdit
import Mathlib.Algebra.Group.Int.Defs
import Mathlib.Algebra.Group.Nat.Defs
import Mathlib.Data.Int.Order.Basic
import Mathlib.Logic.Function.Basic

/-!
# The kernel's `term_read`

`library/syscall/servers.c` has two versions of `term_read`.  The one for the kernel reads from the
terminal itself, byte by byte, and lets the line be edited.

The byte is stored before it is looked at.  A Backspace is therefore in the buffer when it is
recognised, one place behind the line, and the index moves back over two places because the loop is
about to move it forward by one; at the left edge it becomes -1 for a moment.  The bound of the loop
is unsigned, so it matters that the index is never compared while it is negative.

A call is given what is typed, as far as it has been typed.  It either returns, and leaves the rest
of the bytes, or it waits for the next one.

* `termRead`: the function, with the indices it stores to.
* `Reads`: what the loop keeps: the index is the length of the line, and the line is in the buffer.
* `termRead_edits`: every store is in the buffer, and a call that returns leaves the edited line
  there and says how long it is.
-/

namespace EgosNet
namespace Syscall

open Foundation

/-! ## The function -/

/-- `char buf[]`, and what lies on both sides of it. -/
abbrev Buffer := ℤ → UInt8

def ENTER : UInt8 := 0x0d
def BACKSPACE : UInt8 := 0x7f

/-- The index of the loop and the buffer; the indices stored to, and what has been written to the
terminal. -/
structure TermRead where
  i : ℤ := 0
  buf : Buffer
  stores : List ℤ := []
  echo : List UInt8 := []

/-- `buf[k] = c`. -/
def TermRead.store (s : TermRead) (k : ℤ) (c : UInt8) : TermRead :=
  { s with buf := Function.update s.buf k c, stores := s.stores ++ [k] }

/-- `term_write`. -/
def TermRead.termWrite (s : TermRead) (str : List UInt8) : TermRead :=
  { s with echo := s.echo ++ str }

section Fields

variable (s : TermRead) (k : ℤ) (c : UInt8) (str : List UInt8)

@[simp] theorem store_i : (s.store k c).i = s.i := rfl
@[simp] theorem store_buf : (s.store k c).buf = Function.update s.buf k c := rfl
@[simp] theorem store_stores : (s.store k c).stores = s.stores ++ [k] := rfl
@[simp] theorem termWrite_i : (s.termWrite str).i = s.i := rfl
@[simp] theorem termWrite_buf : (s.termWrite str).buf = s.buf := rfl
@[simp] theorem termWrite_stores : (s.termWrite str).stores = s.stores := rfl

end Fields

/-- What a turn of the loop comes to: it goes on, or the function returns. -/
inductive Turn where
  | next (s : TermRead)
  | ret (value : ℤ) (s : TermRead)

/-- The body of the loop, for the byte that `tty_read` gives. -/
def turn (s : TermRead) (c : UInt8) : Turn :=
  let s := s.store s.i c
  if c = ENTER then
    let s := s.store s.i 0
    let s := s.termWrite [10, 13]
    .ret (if s.i ≠ 0 then s.i + 1 else 0) s
  else if c = BACKSPACE then
    let s := if s.i ≠ 0 then s.termWrite [8, 32, 8] else s
    .next { s with i := if s.i ≠ 0 then s.i - 2 else s.i - 1 }
  else .next (if c ≠ 0 then s.termWrite [c] else s)

/-- `len - 1`, a `uint`. -/
def lastIndex (len : ℕ) : ℕ := (len + 2 ^ 32 - 1) % 2 ^ 32

/-- `i < len - 1`, a comparison of `uint`s. -/
def inRoom (len : ℕ) (i : ℤ) : Prop := i % 2 ^ 32 < lastIndex len

instance (len : ℕ) (i : ℤ) : Decidable (inRoom len i) := inferInstanceAs (Decidable (_ < _))

/-- What a call comes to: it waits for a byte, or it has returned and left the bytes `rest`. -/
inductive Reading where
  | waiting (s : TermRead)
  | returned (value : ℤ) (s : TermRead) (rest : List UInt8)

def Reading.state : Reading → TermRead
  | .waiting s => s
  | .returned _ s _ => s

/-- The end of the function. -/
def fullLine (len : ℕ) (s : TermRead) (rest : List UInt8) : Reading :=
  .returned (Int.bmod len (2 ^ 32)) (s.store (lastIndex len) 0) rest

/-- The loop. -/
def loop (len : ℕ) : List UInt8 → TermRead → Reading
  | [], s => if inRoom len s.i then .waiting s else fullLine len s []
  | c :: rest, s =>
    if inRoom len s.i then
      match turn s c with
      | .next s => loop len rest { s with i := s.i + 1 }
      | .ret value s => .returned value s rest
    else fullLine len s (c :: rest)

/-- `term_read`. -/
def termRead (len : ℕ) (buf : Buffer) (typed : List UInt8) : Reading :=
  loop len typed { buf := buf }

/-! ## The line in the buffer -/

/-- The line is in the buffer, from its beginning. -/
def Holds (buf : Buffer) (text : List UInt8) : Prop :=
  ∀ (k : ℕ) (c : UInt8), text[k]? = some c → buf k = c

variable {buf : Buffer} {line : List UInt8} {c : UInt8}

/-- Behind the line there is room. -/
theorem Holds.store (h : Holds buf line) (c : UInt8) :
    Holds (Function.update buf line.length c) line := by
  intro k d hk
  have hlt := (List.getElem?_eq_some_iff.mp hk).1
  rw [Function.update_of_ne (by omega)]
  exact h k d hk

/-- What is stored behind the line is the end of the longer one. -/
theorem Holds.concat (h : Holds buf line) (c : UInt8) :
    Holds (Function.update buf line.length c) (line ++ [c]) := by
  intro k d hk
  rcases Nat.lt_trichotomy k line.length with hlt | rfl | hgt
  · rw [List.getElem?_append_left hlt] at hk
    exact h.store c k d hk
  · rw [List.getElem?_concat_length] at hk
    rw [Function.update_self, Option.some.inj hk]
  · rw [List.getElem?_eq_none (by simp; omega)] at hk
    exact absurd hk (by simp)

/-- A part of the line is there if the line is. -/
theorem Holds.dropLast (h : Holds buf line) : Holds buf line.dropLast := by
  intro k d hk
  have hlt := (List.getElem?_eq_some_iff.mp hk).1
  rw [List.length_dropLast] at hlt
  rw [List.getElem?_dropLast, if_pos (by omega)] at hk
  exact h k d hk

/-- A line in the buffer, with the zero byte behind it. -/
structure Terminated (buf : Buffer) (line : List UInt8) : Prop where
  holds : Holds buf line
  nul : buf line.length = 0

theorem Holds.terminated (h : Holds buf line) :
    Terminated (Function.update buf line.length 0) line :=
  ⟨h.store 0, Function.update_self ..⟩

/-! ## One byte -/

variable {len : ℕ} {buf₀ : Buffer} {typed rest : List UInt8} {s s' : TermRead} {value : ℤ}

theorem lastIndex_eq (hpos : 1 ≤ len) (hlen : len < 2 ^ 31) : lastIndex len = len - 1 := by
  unfold lastIndex
  omega

/-- The comparison of `uint`s, for an index that is not negative. -/
theorem inRoom_natCast (hpos : 1 ≤ len) (hlen : len < 2 ^ 31) {k : ℕ} (hk : k < 2 ^ 31) :
    inRoom len k ↔ k < len - 1 := by
  rw [inRoom, lastIndex_eq hpos hlen]
  omega

/-- What the loop keeps: the index is the length of the line, the line is in the buffer, and what
has been stored to is in the buffer. -/
structure Reads (len : ℕ) (buf₀ : Buffer) (typed : List UInt8) (s : TermRead) : Prop where
  typing : Typing ENTER BACKSPACE (len - 1) typed
  le : (edited BACKSPACE typed).length ≤ len - 1
  index : s.i = (edited BACKSPACE typed).length
  holds : Holds s.buf (edited BACKSPACE typed)
  inside : ∀ k ∈ s.stores, 0 ≤ k ∧ k < len
  outside : ∀ k, k ∉ s.stores → s.buf k = buf₀ k

theorem reads_nil (len : ℕ) (buf : Buffer) : Reads len buf [] { buf := buf } where
  typing := typing_nil
  le := Nat.zero_le _
  index := rfl
  holds := by simp [Holds]
  inside := by simp
  outside := fun _ _ => rfl

/-- What a store adds to the stores. -/
theorem inside_store (h : ∀ k ∈ s.stores, 0 ≤ k ∧ k < len) {j : ℤ} (h0 : 0 ≤ j) (hj : j < len)
    (c : UInt8) : ∀ k ∈ (s.store j c).stores, 0 ≤ k ∧ k < len := by
  intro k hk
  rcases List.mem_append.mp hk with hk | hk
  · exact h k hk
  · rw [List.mem_singleton.mp hk]
    exact ⟨h0, hj⟩

theorem outside_store (h : ∀ k, k ∉ s.stores → s.buf k = buf₀ k) (j : ℤ) (c : UInt8) :
    ∀ k, k ∉ (s.store j c).stores → (s.store j c).buf k = buf₀ k := by
  intro k hk
  obtain ⟨hk, hj⟩ := not_or.mp (mt List.mem_append.mpr hk)
  exact (Function.update_of_ne (by simpa using hj) ..).trans (h k hk)

/-- What a call comes to when `typed` has been typed.  While the line is open it waits.  At the
first Enter it returns the length with the terminator, or zero if there is nothing, and when the
line is full it returns the length of the buffer. -/
inductive ReadLine (len : ℕ) (typed : List UInt8) : Reading → Prop
  | waiting {s : TermRead} : Open ENTER BACKSPACE (len - 1) typed →
      Holds s.buf (edited BACKSPACE typed) → ReadLine len typed (.waiting s)
  | enter {s : TermRead} {line rest : List UInt8} : typed = line ++ ENTER :: rest →
      Open ENTER BACKSPACE (len - 1) line → Terminated s.buf (edited BACKSPACE line) →
      ReadLine len typed (.returned
        (if edited BACKSPACE line = [] then 0 else (edited BACKSPACE line).length + 1) s rest)
  | full {s : TermRead} {line rest : List UInt8} : typed = line ++ rest →
      Full ENTER BACKSPACE (len - 1) line → Terminated s.buf (edited BACKSPACE line) →
      ReadLine len typed (.returned len s rest)

/-- The stores of a call are in the buffer, and nothing else has changed. -/
structure Confined (len : ℕ) (buf₀ : Buffer) (s : TermRead) : Prop where
  inside : ∀ k ∈ s.stores, 0 ≤ k ∧ k < len
  outside : ∀ k, k ∉ s.stores → s.buf k = buf₀ k

/-- A byte that does not end the line is stored, and the index moves. -/
theorem turn_next (s : TermRead) (hc : c ≠ ENTER) :
    ∃ s', turn s c = .next s' ∧ s'.buf = Function.update s.buf s.i c ∧
      s'.stores = s.stores ++ [s.i] ∧
      s'.i = if c = BACKSPACE then (if s.i ≠ 0 then s.i - 2 else s.i - 1) else s.i := by
  rw [turn, if_neg hc]
  by_cases hback : c = BACKSPACE
  · rw [if_pos hback, if_pos hback]
    refine ⟨_, rfl, ?_, ?_, ?_⟩ <;> by_cases hi : s.i = 0 <;> simp [hi]
  · rw [if_neg hback, if_neg hback]
    refine ⟨_, rfl, ?_, ?_, ?_⟩ <;> by_cases hnul : c = 0 <;> simp [hnul]

/-- While the line is open, the index is in the buffer. -/
theorem Reads.index_lt (h : Reads len buf₀ typed s)
    (hopen : Open ENTER BACKSPACE (len - 1) typed) : 0 ≤ s.i ∧ s.i < len := by
  have hshort := hopen.short
  rw [h.index]
  omega

/-- **Enter** ends the line where it is. -/
theorem turn_enter (h : Reads len buf₀ typed s) (hopen : Open ENTER BACKSPACE (len - 1) typed) :
    ∃ s', turn s ENTER = .ret
        (if edited BACKSPACE typed = [] then 0 else (edited BACKSPACE typed).length + 1) s' ∧
      Confined len buf₀ s' ∧ Terminated s'.buf (edited BACKSPACE typed) := by
  obtain ⟨h0, hlt⟩ := h.index_lt hopen
  refine ⟨((s.store s.i ENTER).store s.i 0).termWrite [10, 13], ?_, ⟨?_, ?_⟩, ?_⟩
  · have hval : (if s.i ≠ 0 then s.i + 1 else 0) =
        if edited BACKSPACE typed = [] then (0 : ℤ)
        else (edited BACKSPACE typed).length + 1 := by
      rw [h.index]
      by_cases hnil : edited BACKSPACE typed = []
      · simp [hnil]
      · have hne : ((edited BACKSPACE typed).length : ℤ) ≠ 0 := by simpa using hnil
        rw [if_pos hne, if_neg hnil]
    rw [turn, if_pos rfl, ← hval]
    rfl
  · exact inside_store (inside_store h.inside h0 hlt ENTER) h0 hlt 0
  · exact outside_store (outside_store h.outside s.i ENTER) s.i 0
  · have hline := (h.holds.store ENTER).terminated
    rw [← h.index] at hline
    exact hline

/-- **Any other byte** edits the line: a Backspace takes the index back, and every other one is
already in its place. -/
theorem turn_other (h : Reads len buf₀ typed s) (hopen : Open ENTER BACKSPACE (len - 1) typed)
    (hc : c ≠ ENTER) :
    ∃ s', turn s c = .next s' ∧ Reads len buf₀ (typed ++ [c]) { s' with i := s'.i + 1 } := by
  obtain ⟨h0, hlt⟩ := h.index_lt hopen
  obtain ⟨s', hturn, hbuf, hstores, hi⟩ := turn_next s hc
  refine ⟨s', hturn, typing_concat hopen hc, length_edited_le hopen c, ?_, ?_, ?_, ?_⟩
  · rw [edited_concat]
    by_cases hback : c = BACKSPACE
    · rw [if_pos hback, h.index] at hi
      rw [hback, edit_erase, List.length_dropLast]
      show s'.i + 1 = _
      rw [hi]
      split_ifs <;> omega
    · rw [edit_of_ne hback, List.length_append, List.length_singleton, hi, if_neg hback, h.index]
      norm_cast
  · rw [edited_concat, hbuf, h.index]
    by_cases hback : c = BACKSPACE
    · rw [hback, edit_erase]
      exact (h.holds.store BACKSPACE).dropLast
    · rw [edit_of_ne hback]
      exact h.holds.concat c
  · rw [hstores]
    exact inside_store h.inside h0 hlt c
  · rw [hstores, hbuf]
    exact outside_store h.outside s.i c

/-! ## The call -/

/-- The loop ends when the line is full. -/
theorem fullLine_spec (hpos : 1 ≤ len) (hlen : len < 2 ^ 31) (h : Reads len buf₀ typed s)
    (hfull : (edited BACKSPACE typed).length = len - 1) (rest : List UInt8) :
    Confined len buf₀ (fullLine len s rest).state ∧
      ReadLine len (typed ++ rest) (fullLine len s rest) := by
  have hlast := lastIndex_eq hpos hlen
  have hvalue : Int.bmod len (2 ^ 32) = len := Int.bmod_eq_of_le (by omega) (by omega)
  refine ⟨⟨?_, ?_⟩, ?_⟩
  · exact inside_store h.inside (by omega) (by omega) 0
  · exact outside_store h.outside _ 0
  · rw [fullLine, hvalue]
    refine .full rfl ⟨h.typing, hfull⟩ ?_
    have hline := h.holds.terminated
    rw [hfull, ← hlast] at hline
    exact hline

/-- **The loop**, when `typed` has been consumed and `rest` is still to come. -/
theorem loop_spec (rest : List UInt8) (hpos : 1 ≤ len) (hlen : len < 2 ^ 31)
    (h : Reads len buf₀ typed s) :
    Confined len buf₀ (loop len rest s).state ∧
      ReadLine len (typed ++ rest) (loop len rest s) := by
  have hroom : inRoom len s.i ↔ (edited BACKSPACE typed).length < len - 1 := by
    have hle := h.le
    rw [h.index]
    exact inRoom_natCast hpos hlen (by omega)
  induction rest generalizing typed s with
  | nil =>
    by_cases hin : inRoom len s.i
    · rw [loop, if_pos hin, List.append_nil]
      exact ⟨⟨h.inside, h.outside⟩, .waiting ⟨h.typing, hroom.mp hin⟩ h.holds⟩
    · rw [loop, if_neg hin]
      exact fullLine_spec hpos hlen h (le_antisymm h.le (not_lt.mp (mt hroom.mpr hin))) []
  | cons c rest ih =>
    by_cases hin : inRoom len s.i
    · have hopen : Open ENTER BACKSPACE (len - 1) typed := ⟨h.typing, hroom.mp hin⟩
      rw [loop, if_pos hin]
      by_cases hc : c = ENTER
      · obtain ⟨s', hturn, hconf, hline⟩ := turn_enter h hopen
        rw [hc, hturn]
        exact ⟨hconf, .enter rfl hopen hline⟩
      · obtain ⟨s', hturn, hnext⟩ := turn_other h hopen hc
        rw [hturn, ← List.singleton_append, ← List.append_assoc]
        refine ih hnext ?_
        have hle := hnext.le
        rw [hnext.index]
        exact inRoom_natCast hpos hlen (by omega)
    · rw [loop, if_neg hin]
      exact fullLine_spec hpos hlen h (le_antisymm h.le (not_lt.mp (mt hroom.mpr hin))) (c :: rest)

/-- **The line is edited.**  Whatever is typed, every store is in the buffer, and nothing outside of
it changes.  The call waits as long as the line is open; at the first Enter, or when the line has
reached `len - 1` bytes, it returns with the edited line and a zero byte in the buffer. -/
theorem termRead_edits (hpos : 1 ≤ len) (hlen : len < 2 ^ 31) (buf : Buffer)
    (typed : List UInt8) :
    (∀ k ∈ (termRead len buf typed).state.stores, 0 ≤ k ∧ k < len) ∧
      (∀ k : ℤ, ¬ (0 ≤ k ∧ k < len) → (termRead len buf typed).state.buf k = buf k) ∧
      ReadLine len typed (termRead len buf typed) := by
  obtain ⟨hconf, hread⟩ := loop_spec typed hpos hlen (reads_nil len buf)
  refine ⟨hconf.inside, fun k hk => hconf.outside k fun hmem => hk (hconf.inside k hmem), hread⟩

/-- One letter and two Backspaces, two letters and Enter, and one more letter that is left. -/
def twoLetters : List UInt8 := [97, BACKSPACE, BACKSPACE, 98, 99, ENTER, 100]

theorem termRead_edits_twoLetters :
    (∃ s, termRead 4 (fun _ => 255) twoLetters = .returned 3 s [100] ∧
      Terminated s.buf [98, 99] ∧ s.stores = [0, 1, 0, 0, 1, 2, 2]) ∧
    (∀ k ∈ (termRead 4 (fun _ => 255) twoLetters).state.stores, 0 ≤ k ∧ k < 4) ∧
      ReadLine 4 twoLetters (termRead 4 (fun _ => 255) twoLetters) := by
  obtain ⟨hinside, -, hread⟩ :=
    termRead_edits (show 1 ≤ 4 by decide) (by decide) (fun _ => 255) twoLetters
  refine ⟨⟨_, rfl, ⟨?_, rfl⟩, rfl⟩, hinside, hread⟩
  intro k c hk
  rcases k with _ | _ | k
  · rw [← Option.some.inj hk]
    rfl
  · rw [← Option.some.inj hk]
    rfl
  · exact absurd hk (by simp)

end Syscall
end EgosNet
