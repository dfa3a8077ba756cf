import Mathlib.Data.List.Infix
import Mathlib.Tactic.Common

/-!
# Editing a line

A line is typed: a character is put behind it, and one particular character, `erase`, takes away the
last one instead.  Another one, `enter`, ends the line, and so does its length: there is room for
so many characters.

* `edited`: the line after what has been typed.
* `Typing`: nothing that was typed, except possibly the last character, has filled the line, and no
  `enter` was typed.
* `Open` and `Full`: there is room for another character, or there is not.
* `typing_concat`, `length_edited_le`: while a line is open, one more character keeps it within its
  room.
-/

namespace EgosNet
namespace Foundation

section LineEdit

variable {α : Type*} [DecidableEq α] (enter erase : α) (room : ℕ)

/-- What a character does to the line. -/
def edit (line : List α) (c : α) : List α := if c = erase then line.dropLast else line ++ [c]

/-- The line after what has been typed. -/
def edited (typed : List α) : List α := typed.foldl (edit erase) []

/-- The line has not been ended before the last character. -/
structure Typing (typed : List α) : Prop where
  no_enter : enter ∉ typed
  before : ∀ first rest, typed = first ++ rest → rest ≠ [] → (edited erase first).length < room

/-- There is room for another character. -/
structure Open (typed : List α) : Prop extends Typing enter erase room typed where
  short : (edited erase typed).length < room

/-- There is no room left. -/
structure Full (typed : List α) : Prop extends Typing enter erase room typed where
  full : (edited erase typed).length = room

variable {enter erase room} {typed line : List α} {c : α}

@[simp] theorem edited_nil : edited erase [] = [] := rfl

theorem edited_concat (typed : List α) (c : α) :
    edited erase (typed ++ [c]) = edit erase (edited erase typed) c := by
  rw [edited, List.foldl_append]
  rfl

@[simp] theorem edit_erase (line : List α) : edit erase line erase = line.dropLast := if_pos rfl

theorem edit_of_ne (hc : c ≠ erase) : edit erase line c = line ++ [c] := if_neg hc

/-- A character makes the line longer by one at most. -/
theorem length_edit_le (line : List α) (c : α) : (edit erase line c).length ≤ line.length + 1 := by
  unfold edit
  split_ifs
  · rw [List.length_dropLast]
    omega
  · rw [List.length_append, List.length_singleton]

theorem typing_nil : Typing enter erase room [] where
  no_enter := List.not_mem_nil
  before := by
    intro first rest h hne
    exact absurd (List.append_eq_nil_iff.mp h.symm).2 hne

/-- **One more character**, which is not the end, can be typed while there is room. -/
theorem typing_concat (h : Open enter erase room typed) (hc : c ≠ enter) :
    Typing enter erase room (typed ++ [c]) where
  no_enter := by
    rw [List.mem_append, List.mem_singleton, not_or]
    exact ⟨h.no_enter, Ne.symm hc⟩
  before := by
    intro first rest hsplit hne
    -- the rest ends with the new character, so what came first is a part of what was there
    obtain ⟨rest, rfl⟩ : ∃ rest', rest = rest' ++ [c] := by
      rcases List.eq_nil_or_concat rest with rfl | ⟨rest', d, rfl⟩
      · exact absurd rfl hne
      · rw [List.concat_eq_append, ← List.append_assoc] at hsplit
        obtain ⟨-, hd⟩ := List.append_inj' hsplit rfl
        exact ⟨rest', by rw [List.concat_eq_append, List.singleton_inj.mp hd]⟩
    rw [← List.append_assoc] at hsplit
    have htyped := List.append_cancel_right hsplit
    by_cases hrest : rest = []
    · rw [hrest, List.append_nil] at htyped
      rw [← htyped]
      exact h.short
    · exact h.before first rest htyped hrest

/-- And then the line still fits. -/
theorem length_edited_le (h : Open enter erase room typed) (c : α) :
    (edited erase (typed ++ [c])).length ≤ room := by
  rw [edited_concat]
  exact (length_edit_le _ c).trans h.short

end LineEdit

end Foundation
end EgosNet
