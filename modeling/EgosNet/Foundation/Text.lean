import Mathlib.Algebra.Group.Int.Defs
import Mathlib.Algebra.Group.Nat.Defs
import Mathlib.Data.List.Infix
import Mathlib.Tactic.Common

/-!
# Text that ends with a zero byte

The functions of the C library that walk along a string do not know where the array around it ends;
they stop at the zero byte, or at the first difference, or at the first character that is no digit.
Here the array is a list, and a walk that comes to the end of the list without having met what it
was looking for answers `none`: it has left the array.  So a computation on a list answers `some`
exactly when it reads inside the list, and the same question asked about the list that is cut off
after the terminator says whether it reads beyond the text.

* `strlen_terminated`, `strncmp_terminated`, `atoi_terminated`: on terminated text the walks stay
  inside, and what is behind the terminator does not matter.
* `atoi_numeral`: a printed number reads back.
* `Place`, `place_word`: where a word stands in a text, between spaces.
-/

namespace EgosNet
namespace Foundation

/-- The bytes of a text in the source. -/
def bytes (s : String) : List UInt8 := s.toList.map fun c => UInt8.ofNat c.toNat

/-- `' '`. -/
def space : UInt8 := 32

/-- `isspace`. -/
def isSpace (c : UInt8) : Bool := c = space ∨ 9 ≤ c ∧ c ≤ 13

/-- `isdigit`. -/
def isDigit (c : UInt8) : Bool := 48 ≤ c ∧ c ≤ 57

/-- `strlen`. -/
def strlen : List UInt8 → Option ℕ
  | [] => none
  | c :: b => if c = 0 then some 0 else (strlen b).map (· + 1)

/-- `strncmp(s, b, strlen(s)) == 0`: the walk ends at the first difference. -/
def strncmp : List UInt8 → List UInt8 → Option Bool
  | [], _ => some true
  | _ :: _, [] => none
  | c :: s, d :: b => if c = d then strncmp s b else some false

/-- The first byte that is not white space, and what follows. -/
def skipSpaces : List UInt8 → Option (List UInt8)
  | [] => none
  | c :: b => if isSpace c then skipSpaces b else some (c :: b)

/-- The number that the digits at the beginning spell, after `acc`. -/
def digits (acc : ℕ) : List UInt8 → Option ℕ
  | [] => none
  | c :: b => if isDigit c then digits (10 * acc + (c.toNat - 48)) b else some acc

/-- The range of `int`, which is what `strtol` keeps to. -/
def clampInt (v : ℤ) : ℤ := max (-2 ^ 31) (min v (2 ^ 31 - 1))

/-- `atoi`. -/
def atoi (b : List UInt8) : Option ℤ :=
  match skipSpaces b with
  | none => none
  | some [] => none
  | some (c :: b) =>
    if c = 45 then (digits 0 b).map fun v : ℕ => clampInt (-v)
    else if c = 43 then (digits 0 b).map fun v : ℕ => clampInt v
    else (digits 0 (c :: b)).map fun v : ℕ => clampInt v

/-- `"%d"` of a number that is not negative. -/
def numeral (n : ℕ) : List UInt8 := (Nat.toDigits 10 n).map fun c => UInt8.ofNat c.toNat

/-- `"%4d"` and the like: a field of a least width, filled with spaces on the left. -/
def padLeft (width : ℕ) (b : List UInt8) : List UInt8 :=
  List.replicate (width - b.length) space ++ b

variable {s t b r u v w : List UInt8} {c : UInt8} {i n k : ℕ}

/-! ## Walks over terminated text -/

theorem strlen_terminated (h : 0 ∉ t) : strlen (t ++ 0 :: r) = some t.length := by
  induction t with
  | nil => rfl
  | cons c t ih =>
    obtain ⟨hc, ht⟩ := not_or.mp (List.mem_cons.not.mp h)
    rw [List.cons_append, strlen, if_neg (Ne.symm hc), ih ht]
    rfl

/-- The comparison stays in the text and its terminator, and finds out whether the text begins with
`s`. -/
theorem strncmp_terminated (h : 0 ∉ s) :
    strncmp s (t ++ 0 :: r) = some (decide (s <+: t)) := by
  induction s generalizing t with
  | nil => simp [strncmp]
  | cons c s ih =>
    obtain ⟨hc, hs⟩ := not_or.mp (List.mem_cons.not.mp h)
    cases t with
    | nil =>
      rw [List.nil_append, strncmp, if_neg (Ne.symm hc)]
      simp
    | cons d t =>
      rw [List.cons_append, strncmp]
      split_ifs with hcd
      · rw [ih hs, hcd]
        simp
      · simp [hcd]

theorem skipSpaces_terminated (t : List UInt8) :
    ∃ t', t' <:+ t ∧ (∀ c ∈ t'.head?, isSpace c = false) ∧
      ∀ r, skipSpaces (t ++ 0 :: r) = some (t' ++ 0 :: r) := by
  induction t with
  | nil => exact ⟨[], List.nil_suffix, by simp, fun r => rfl⟩
  | cons c t ih =>
    by_cases hc : isSpace c = true
    · obtain ⟨t', hsuf, hhead, hskip⟩ := ih
      refine ⟨t', hsuf.trans (List.suffix_cons c t), hhead, fun r => ?_⟩
      rw [List.cons_append, skipSpaces, if_pos hc, hskip]
    · refine ⟨c :: t, List.suffix_rfl, by simpa using hc, fun r => ?_⟩
      rw [List.cons_append, skipSpaces, if_neg hc]

theorem digits_terminated (t : List UInt8) (acc : ℕ) :
    ∃ v, ∀ r, digits acc (t ++ 0 :: r) = some v := by
  induction t generalizing acc with
  | nil => exact ⟨acc, fun r => rfl⟩
  | cons c t ih =>
    by_cases hc : isDigit c = true
    · obtain ⟨v, hv⟩ := ih (10 * acc + (c.toNat - 48))
      exact ⟨v, fun r => by rw [List.cons_append, digits, if_pos hc, hv]⟩
    · exact ⟨acc, fun r => by rw [List.cons_append, digits, if_neg hc]⟩

/-- `atoi` stays in the text and its terminator. -/
theorem atoi_terminated (t : List UInt8) : ∃ v, ∀ r, atoi (t ++ 0 :: r) = some v := by
  obtain ⟨t', -, -, hskip⟩ := skipSpaces_terminated t
  cases t' with
  | nil =>
    refine ⟨0, fun r => ?_⟩
    rw [atoi, hskip]
    rfl
  | cons c t' =>
    obtain ⟨v, hv⟩ := digits_terminated t' 0
    obtain ⟨v', hv'⟩ := digits_terminated (c :: t') 0
    refine ⟨if c = 45 then clampInt (-v) else if c = 43 then clampInt v else clampInt v',
      fun r => ?_⟩
    rw [atoi, hskip]
    simp only [List.cons_append] at hv' ⊢
    rw [hv, hv']
    split_ifs <;> rfl

/-! ## Numbers -/

theorem isDigit_of_mem_numeral (h : c ∈ numeral n) : isDigit c = true := by
  obtain ⟨d, hd, rfl⟩ := List.mem_map.mp h
  have hdig := Nat.isDigit_of_mem_toDigits (by decide) (by decide) hd
  simp only [Char.isDigit, Bool.and_eq_true, decide_eq_true_eq, ge_iff_le] at hdig
  obtain ⟨hlo, hhi⟩ := hdig
  have hlo' : 48 ≤ d.toNat := hlo
  have hhi' : d.toNat ≤ 57 := hhi
  have hd : (UInt8.ofNat d.toNat).toNat = d.toNat := by
    rw [UInt8.toNat_ofNat', Nat.mod_eq_of_lt (by omega)]
  simp only [isDigit, decide_eq_true_eq, UInt8.le_iff_toNat_le, hd]
  exact ⟨hlo', hhi'⟩

theorem numeral_ne_nil (n : ℕ) : numeral n ≠ [] := by
  simp [numeral, Nat.toDigits_ne_nil]

theorem isSpace_of_isDigit (h : isDigit c = true) : isSpace c = false := by
  simp only [isDigit, decide_eq_true_eq, UInt8.le_iff_toNat_le] at h
  obtain ⟨hlo, hhi⟩ := h
  have hlo' : 48 ≤ c.toNat := hlo
  have hhi' : c.toNat ≤ 57 := hhi
  have hne : c ≠ space := by
    rintro rfl
    exact absurd hlo' (by decide)
  simp only [isSpace, decide_eq_false_iff_not, UInt8.le_iff_toNat_le, not_or]
  exact ⟨hne, fun h => absurd (show c.toNat ≤ 13 from h.2) (by omega)⟩

/-- Digits spell what they spell in any text that goes on with something else. -/
theorem digits_append {l : List Char} (hl : ∀ d ∈ l, d.isDigit = true) (hc : isDigit c = false)
    (acc : ℕ) : digits acc (l.map (fun d => UInt8.ofNat d.toNat) ++ c :: r) =
      some (Nat.ofDigitChars 10 l acc) := by
  induction l generalizing acc with
  | nil => simp [digits, hc]
  | cons d l ih =>
    have hd := hl d (List.mem_cons_self ..)
    simp only [Char.isDigit, Bool.and_eq_true, decide_eq_true_eq, ge_iff_le] at hd
    obtain ⟨hlo, hhi⟩ := hd
    have hlo' : 48 ≤ d.toNat := hlo
    have hhi' : d.toNat ≤ 57 := hhi
    have hval : (UInt8.ofNat d.toNat).toNat = d.toNat := by
      rw [UInt8.toNat_ofNat', Nat.mod_eq_of_lt (by omega)]
    have hdig : isDigit (UInt8.ofNat d.toNat) = true := by
      simp only [isDigit, decide_eq_true_eq, UInt8.le_iff_toNat_le, hval]
      exact ⟨hlo', hhi'⟩
    rw [List.map_cons, List.cons_append, digits, if_pos hdig, hval,
      ih fun d hd => hl d (List.mem_cons_of_mem _ hd), Nat.ofDigitChars_cons]
    rfl

theorem skipSpaces_replicate : skipSpaces (List.replicate k space ++ b) = skipSpaces b := by
  induction k with
  | zero => rfl
  | succ k ih => rw [List.replicate_succ, List.cons_append, skipSpaces, if_pos (by decide), ih]

/-- **A printed number reads back**, whatever spaces are before it and whatever follows the space
after it. -/
theorem atoi_numeral (hn : n < 2 ^ 31) :
    atoi (List.replicate k space ++ numeral n ++ space :: r) = some (n : ℤ) := by
  have hdigits : digits 0 (numeral n ++ space :: r) = some n := by
    rw [numeral, digits_append (fun d hd => Nat.isDigit_of_mem_toDigits (by decide) (by decide) hd)
      (by decide), Nat.ofDigitChars_toDigits (by decide) (by decide)]
  obtain ⟨c, b, hcb⟩ := List.exists_cons_of_ne_nil (numeral_ne_nil n)
  have hc : isDigit c = true := isDigit_of_mem_numeral (n := n) (by simp [hcb])
  have hskip : skipSpaces (List.replicate k space ++ numeral n ++ space :: r) =
      some (numeral n ++ space :: r) := by
    rw [List.append_assoc, skipSpaces_replicate, hcb, List.cons_append, skipSpaces,
      if_neg (by simp [isSpace_of_isDigit hc])]
  have hsign : c ≠ 45 ∧ c ≠ 43 := by
    constructor <;> rintro rfl <;> exact absurd hc (by decide)
  rw [atoi, hskip]
  rw [hcb, List.cons_append] at hdigits ⊢
  have hclamp : clampInt n = n := by
    unfold clampInt
    omega
  dsimp only
  rw [if_neg hsign.1, if_neg hsign.2, hdigits, Option.map_some, hclamp]

/-! ## Words between spaces -/

/-- The text `t` has `s` after `u`, between spaces: `u` is empty or ends with a space, and a space
and then `v` follow. -/
def Place (t s u v : List UInt8) : Prop :=
  t = u ++ s ++ space :: v ∧ (u = [] ∨ ∃ w, u = w ++ [space])

/-- The first place of a word in a text. -/
def FirstPlace (t s u v : List UInt8) : Prop :=
  Place t s u v ∧ ∀ u' v', Place t s u' v' → u.length ≤ u'.length

theorem Place.take (h : Place t s u v) : t.take u.length = u := by
  rw [h.1, List.append_assoc]
  exact List.take_left ..

theorem Place.length_lt (h : Place t s u v) : u.length + s.length < t.length := by
  have := congrArg List.length h.1
  simp only [List.length_append, List.length_cons] at this
  omega

theorem Place.drop (h : Place t s u v) : t.drop u.length = s ++ space :: v := by
  rw [h.1, List.append_assoc]
  exact List.drop_left ..

theorem Place.drop_word (h : Place t s u v) : t.drop (u.length + s.length) = space :: v := by
  rw [← List.drop_drop, h.drop]
  exact List.drop_left ..

/-- What follows the first place of a word is determined. -/
theorem FirstPlace.rest_unique {u' v' : List UInt8} (h : FirstPlace t s u v)
    (h' : FirstPlace t s u' v') : v = v' := by
  have hlen : u.length = u'.length := Nat.le_antisymm (h.2 u' v' h'.1) (h'.2 u v h.1)
  have hrest := h.1.drop_word
  rw [hlen, h'.1.drop_word] at hrest
  exact (List.cons.inj hrest).2.symm

/-- A space before a place is the byte before it. -/
theorem Place.before (h : Place t s u v) (hne : u ≠ []) : t[u.length - 1]? = some space := by
  obtain ⟨w, rfl⟩ := h.2.resolve_left hne
  rw [h.1]
  simp

/-- **A place, byte by byte.**  A word stands at position `i` if the text goes on with it there, a
space follows, and a space comes before unless nothing does. -/
theorem exists_place_take_iff (hi : i ≤ t.length) :
    (∃ v, Place t s (t.take i) v) ↔
      s <+: t.drop i ∧ t[i + s.length]? = some space ∧ (i = 0 ∨ t[i - 1]? = some space) := by
  have hlen : (t.take i).length = i := List.length_take_of_le hi
  constructor
  · rintro ⟨v, h⟩
    have hdrop := h.drop
    rw [hlen] at hdrop
    refine ⟨⟨space :: v, hdrop.symm⟩, ?_, ?_⟩
    · rw [← List.getElem?_drop, hdrop]
      simp
    · by_cases hnil : t.take i = []
      · rw [hnil] at hlen
        exact Or.inl hlen.symm
      · have hbefore := h.before hnil
        rw [hlen] at hbefore
        exact Or.inr hbefore
  · rintro ⟨⟨x, hx⟩, hnext, hbefore⟩
    rw [← List.getElem?_drop, ← hx, List.getElem?_append_right le_rfl, Nat.sub_self] at hnext
    obtain ⟨v, rfl⟩ : ∃ v, x = space :: v := by
      cases x with
      | nil => exact absurd hnext (by simp)
      | cons a v => exact ⟨v, by rw [Option.some.inj hnext]⟩
    refine ⟨v, ?_, ?_⟩
    · rw [List.append_assoc, hx, List.take_append_drop]
    · cases i with
      | zero => exact Or.inl rfl
      | succ i =>
        have hlast : t[i]? = some space := hbefore.resolve_left (Nat.succ_ne_zero i)
        refine Or.inr ⟨t.take i, ?_⟩
        rw [List.take_add_one, hlast]
        rfl

/-- The first word of a text, and what follows it, are told by the first space. -/
theorem word_inj (hw : space ∉ w) (hs : space ∉ s) (h : w ++ space :: t = s ++ space :: v) :
    w = s ∧ t = v := by
  have hlen : w.length = s.length := by
    have hidx := congrArg (List.idxOf space) h
    rwa [List.idxOf_append_of_notMem hw, List.idxOf_append_of_notMem hs, List.idxOf_cons_self,
      List.idxOf_cons_self] at hidx
  obtain ⟨hword, htail⟩ := List.append_inj h hlen
  exact ⟨hword, (List.cons.inj htail).2⟩

/-- **Word by word.**  A word stands at the first word of a text, if it is that word, or it stands
in the text behind it. -/
theorem place_word (hs : space ∉ s) (hw : space ∉ w) :
    Place (w ++ space :: t) s u v ↔
      (u = [] ∧ s = w ∧ v = t) ∨ ∃ u', u = w ++ space :: u' ∧ Place t s u' v := by
  constructor
  · rintro ⟨ht, rfl | ⟨x, rfl⟩⟩
    · rw [List.nil_append] at ht
      obtain ⟨rfl, rfl⟩ := word_inj hw hs ht
      exact Or.inl ⟨rfl, rfl, rfl⟩
    · -- what is before `s` has a space, and so it has the first word
      refine Or.inr ?_
      rw [List.append_assoc, List.append_assoc, List.singleton_append] at ht
      rcases List.append_eq_append_iff.mp ht with ⟨y, hx, hy⟩ | ⟨y, hx, hy⟩
      · cases y with
        | nil =>
          rw [List.nil_append] at hy
          rw [List.append_nil] at hx
          refine ⟨[], by rw [hx], ?_, Or.inl rfl⟩
          rw [List.nil_append]
          exact (List.cons.inj hy).2
        | cons c y =>
          obtain ⟨rfl, ht'⟩ := List.cons.inj hy
          refine ⟨y ++ [space], by rw [hx]; simp, ?_, Or.inr ⟨y, rfl⟩⟩
          rw [ht']
          simp
      · cases y with
        | nil =>
          rw [List.nil_append] at hy
          rw [List.append_nil] at hx
          refine ⟨[], by rw [hx], ?_, Or.inl rfl⟩
          rw [List.nil_append]
          exact (List.cons.inj hy).2.symm
        | cons c y =>
          obtain ⟨rfl, -⟩ := List.cons.inj hy
          exact absurd (by simp [hx]) hw
  · rintro (⟨rfl, rfl, rfl⟩ | ⟨u', rfl, rfl, hu⟩)
    · exact ⟨rfl, Or.inl rfl⟩
    · refine ⟨by simp, Or.inr ?_⟩
      rcases hu with rfl | ⟨x, rfl⟩
      · exact ⟨w, rfl⟩
      · exact ⟨w ++ space :: x, by simp⟩

/-- Spaces before a text hold no word. -/
theorem place_replicate (hs : space ∉ s) (hne : s ≠ []) :
    (∃ u, Place (List.replicate k space ++ t) s u v) ↔ ∃ u, Place t s u v := by
  induction k with
  | zero => rfl
  | succ k ih =>
    rw [← ih, List.replicate_succ, List.cons_append]
    constructor
    · rintro ⟨u, hu⟩
      rcases (place_word (w := []) hs (by simp)).mp hu with ⟨-, hnil, -⟩ | ⟨u', -, hu'⟩
      · exact absurd hnil hne
      · exact ⟨u', hu'⟩
    · rintro ⟨u, hu⟩
      exact ⟨space :: u, (place_word (w := []) hs (by simp)).mpr (Or.inr ⟨u, rfl, hu⟩)⟩

end Foundation
end EgosNet
