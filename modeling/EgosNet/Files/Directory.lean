import EgosNet.Foundation.Text
import Mathlib.Data.List.Nodup

/-!
# Directories: `dir_lookup` and the text that `mkfs` writes

A directory of the read-only file system is one block of text, a sequence of names each followed by
its inode number.  Two programs have to agree on it and share nothing but the convention:
`tools/mkfs.c` prints the text when the disk image is made, and `dir_lookup` of the system library
searches it, in every process that opens a file.

The search knows nothing of entries.  It tries every position of the block and accepts one where the
name stands between spaces, and it reads the number from what follows.  Both programs read strings
without knowing their size, so everything here is a computation on the bytes that may be read, and
`none` is a read outside of them (`Foundation.Text`).

The file server is not part of this: `FileServer` is what it answers.  The number of inodes of the
read-only file system is a parameter, as the header that defines it is not in the repository.

* `dirLookup`, `search`: the search.
* `Entry`, `listing`: what `mkfs` prints; `Entry.Valid`: names that are words and not numbers.
* `search_cases`: what the search finds, as the first place where the name stands.
* `place_listing`: where a word stands in a listing.
-/

namespace EgosNet
namespace Files

open Foundation

/-! ## The search -/

/-- `BLOCK_SIZE`. -/
def BLOCK_SIZE : ℕ := 512

/-- `CMD_ARG_LEN`. -/
def CMD_ARG_LEN : ℕ := 32

/-- The test of the loop at position `i`: the name stands there, a space follows it, and it is at
the beginning of the block or a space is before it. -/
def standsAt (buf name : List UInt8) (i : ℕ) : Option Bool :=
  match strncmp name (buf.drop i) with
  | none => none
  | some false => some false
  | some true =>
    match buf[i + name.length]? with
    | none => none
    | some c =>
      if c ≠ space then some false
      else if i = 0 then some true
      else
        match buf[i - 1]? with
        | none => none
        | some d => some (d = space)

/-- The `for` loop, with `turns` to go at position `i`. -/
def searchFrom (buf name : List UInt8) : ℕ → ℕ → Option ℤ
  | 0, _ => some (-1)
  | turns + 1, i =>
    match standsAt buf name i with
    | none => none
    | some true => atoi (buf.drop (i + name.length))
    | some false => searchFrom buf name turns (i + 1)

/-- The search of a block.  The bound of the loop is a difference of two `uint`s. -/
def search (buf name : List UInt8) : Option ℤ :=
  match strlen buf with
  | none => none
  | some len => searchFrom buf name ((len + 2 ^ 32 - name.length) % 2 ^ 32) 0

/-- What the file server answers: the block of `file_read(ino, 0, BLOCK_SIZE, _)`, and the inode
number of `DIR_LOOKUP` in the other file system. -/
structure FileServer where
  block : ℤ → List UInt8
  lookup : ℤ → List UInt8 → ℤ

/-- `dir_lookup`. -/
def dirLookup (NINODES : ℤ) (files : FileServer) (dirIno : ℤ) (name : List UInt8) : Option ℤ :=
  if dirIno < NINODES then search (files.block dirIno) name else some (files.lookup dirIno name)

/-! ## The text -/

/-- An entry of a directory: a name, spaces, a number and a space. -/
structure Entry where
  name : List UInt8
  pad : ℕ
  ino : ℕ
  deriving DecidableEq, Repr

/-- An entry as it is printed. -/
def Entry.text (e : Entry) : List UInt8 :=
  e.name ++ List.replicate e.pad space ++ numeral e.ino ++ [space]

/-- The text of a directory. -/
def listing (es : List Entry) : List UInt8 := (es.map Entry.text).flatten

/-- An entry that can be told from its neighbours: the name is a word and not a number, a space
separates the number from it, and the number is one that `atoi` reads back. -/
structure Entry.Valid (e : Entry) : Prop where
  ne_nil : e.name ≠ []
  no_space : space ∉ e.name
  no_nul : 0 ∉ e.name
  not_number : ∃ c ∈ e.name, isDigit c = false
  pad_pos : 1 ≤ e.pad
  ino_lt : e.ino < 2 ^ 31

variable {t r s name buf u v : List UInt8} {es : List Entry} {e : Entry} {i n k : ℕ}

@[simp] theorem listing_cons : listing (e :: es) = e.text ++ listing es := rfl

/-! ## The search, on terminated text -/

/-- The test of the loop stays in the text and its terminator, and finds out whether the name stands
at `i`. -/
theorem standsAt_terminated (hname : 0 ∉ name) (hi : i ≤ t.length) :
    ∃ b, standsAt (t ++ 0 :: r) name i = some b ∧ (b = true ↔ ∃ v, Place t name (t.take i) v) := by
  have hdrop : (t ++ 0 :: r).drop i = t.drop i ++ 0 :: r := List.drop_append_of_le_length hi
  rw [standsAt, hdrop, strncmp_terminated hname]
  by_cases hpre : name <+: t.drop i
  · have hle : i + name.length ≤ t.length := by
      have := hpre.length_le
      rw [List.length_drop] at this
      omega
    simp only [decide_eq_true hpre]
    by_cases hend : i + name.length = t.length
    · -- the name is the last thing in the text: the terminator follows, not a space
      have hget : (t ++ 0 :: r)[i + name.length]? = some 0 := by
        rw [hend]
        simp
      refine ⟨false, ?_, ?_⟩
      · rw [hget]
        rfl
      · rw [exists_place_take_iff hi, hend, List.getElem?_eq_none le_rfl]
        simp
    · have hget : (t ++ 0 :: r)[i + name.length]? = t[i + name.length]? :=
        List.getElem?_append_left (by omega)
      have hbefore : (t ++ 0 :: r)[i - 1]? = t[i - 1]? := List.getElem?_append_left (by omega)
      rw [hget, hbefore, exists_place_take_iff hi]
      obtain ⟨c, hc⟩ : ∃ c, t[i + name.length]? = some c :=
        ⟨_, List.getElem?_eq_getElem (by omega)⟩
      obtain ⟨d, hd⟩ : ∃ d, t[i - 1]? = some d := ⟨_, List.getElem?_eq_getElem (by omega)⟩
      rw [hc, hd]
      dsimp only
      split_ifs with hcs hi0
      · exact ⟨false, rfl, by simp [hcs]⟩
      · have hpre' : name <+: t := by simpa [hi0] using hpre
        exact ⟨true, rfl, by simp [hpre', not_not.mp hcs, hi0]⟩
      · exact ⟨decide (d = space), rfl, by simp [hpre, not_not.mp hcs, hi0]⟩
  · simp only [decide_eq_false hpre]
    refine ⟨false, rfl, ?_⟩
    rw [exists_place_take_iff hi]
    simp [hpre]

/-- **The loop of `dir_lookup`**, in text that is at least as long as the name: the number behind
the first place of the name that it has not passed yet, or -1 when there is none. -/
theorem searchFrom_terminated (hname : 0 ∉ name) {turns : ℕ}
    (hturns : i + turns = t.length - name.length)
    (hpassed : ∀ u v, Place t name u v → i ≤ u.length) :
    (∃ u v, FirstPlace t name u v ∧
      ∀ r, searchFrom (t ++ 0 :: r) name turns i = atoi (space :: v ++ 0 :: r)) ∨
    ((∀ u v, ¬ Place t name u v) ∧ ∀ r, searchFrom (t ++ 0 :: r) name turns i = some (-1)) := by
  induction turns generalizing i with
  | zero =>
    refine Or.inr ⟨fun u v h => ?_, fun r => rfl⟩
    have := hpassed u v h
    have := h.length_lt
    omega
  | succ turns ih =>
    have hi : i ≤ t.length := by omega
    have htest (r : List UInt8) := standsAt_terminated (r := r) hname hi
    by_cases hhere : ∃ v, Place t name (t.take i) v
    · obtain ⟨v, hv⟩ := hhere
      have hlen : (t.take i).length = i := List.length_take_of_le hi
      refine Or.inl ⟨t.take i, v, ⟨hv, fun u' v' h' => ?_⟩, fun r => ?_⟩
      · rw [hlen]
        exact hpassed u' v' h'
      · obtain ⟨b, hb, hiff⟩ := htest r
        rw [searchFrom, hb, hiff.mpr ⟨v, hv⟩]
        dsimp only
        have hlt := hv.length_lt
        have hrest := hv.drop_word
        rw [hlen] at hlt hrest
        rw [List.drop_append_of_le_length (by omega), hrest]
    · have hnext : ∀ u v, Place t name u v → i + 1 ≤ u.length := by
        intro u v h
        refine Nat.lt_of_le_of_ne (hpassed u v h) fun hne => hhere ⟨v, ?_⟩
        rw [hne, h.take]
        exact h
      have hstep (r : List UInt8) : searchFrom (t ++ 0 :: r) name (turns + 1) i =
          searchFrom (t ++ 0 :: r) name turns (i + 1) := by
        obtain ⟨b, hb, hiff⟩ := htest r
        obtain rfl : b = false := by simpa [hhere] using hiff
        rw [searchFrom, hb]
      simp only [hstep]
      exact ih (by omega) hnext

/-- **What `dir_lookup` finds in a block whose text is at least as long as the name**: the number
behind the first place where the name stands between spaces, or -1 when it stands nowhere.  It reads
nothing behind the terminator. -/
theorem search_cases (ht : 0 ∉ t) (hname : 0 ∉ name) (hlen : name.length ≤ t.length)
    (hshort : t.length < 2 ^ 32) :
    (∃ u v, FirstPlace t name u v ∧ ∀ r, search (t ++ 0 :: r) name = atoi (space :: v ++ 0 :: r)) ∨
    ((∀ u v, ¬ Place t name u v) ∧ ∀ r, search (t ++ 0 :: r) name = some (-1)) := by
  have hbound : (t.length + 2 ^ 32 - name.length) % 2 ^ 32 = t.length - name.length := by omega
  simp only [search, strlen_terminated ht, hbound]
  exact searchFrom_terminated hname (by omega) fun _ _ _ => Nat.zero_le _

/-- What is behind the terminator does not matter. -/
theorem search_terminated (ht : 0 ∉ t) (hname : 0 ∉ name) (hlen : name.length ≤ t.length)
    (hshort : t.length < 2 ^ 32) : ∃ n, ∀ r, search (t ++ 0 :: r) name = some n := by
  rcases search_cases ht hname hlen hshort with ⟨u, v, -, hval⟩ | ⟨-, hval⟩
  · obtain ⟨n, hn⟩ := atoi_terminated (space :: v)
    exact ⟨n, fun r => (hval r).trans (hn r)⟩
  · exact ⟨-1, hval⟩

/-- The loop does not end in text that is shorter than the name: no position up to the terminator
has room for it, and the next one is outside. -/
theorem searchFrom_of_longer (hname : 0 ∉ name) (hlen : t.length < name.length) {turns : ℕ}
    (hi : i ≤ t.length + 1) (hturns : t.length + 1 < i + turns) :
    searchFrom (t ++ [0]) name turns i = none := by
  induction turns generalizing i with
  | zero => omega
  | succ turns ih =>
    rw [searchFrom]
    by_cases hin : i ≤ t.length
    · obtain ⟨b, hb, hiff⟩ := standsAt_terminated (r := []) hname hin
      obtain rfl : b = false := by
        rw [← Bool.not_eq_true, hiff]
        rintro ⟨v, hv⟩
        have := hv.length_lt
        omega
      rw [hb]
      exact ih (by omega) (by omega)
    · obtain rfl : i = t.length + 1 := by omega
      obtain ⟨c, s, rfl⟩ : ∃ c s, name = c :: s :=
        List.exists_cons_of_ne_nil (by rintro rfl; simp at hlen)
      have hend : (t ++ [0]).drop (t.length + 1) = [] := by simp
      rw [standsAt, hend, strncmp]

/-- **A name that is longer than the text** makes the bound of the loop wrap around, and the search
goes on behind the terminator. -/
theorem search_of_longer (ht : 0 ∉ t) (hname : 0 ∉ name) (hlen : t.length < name.length)
    (hshort : name.length + 1 < 2 ^ 32) : search (t ++ [0]) name = none := by
  rw [search, strlen_terminated ht]
  exact searchFrom_of_longer hname hlen (by omega) (by omega)

/-! ## The words of a listing -/

theorem nul_notMem_text (he : e.Valid) : 0 ∉ e.text := by
  have hnum : (0 : UInt8) ∉ numeral e.ino := fun h =>
    absurd (isDigit_of_mem_numeral h) (by decide)
  simp [Entry.text, he.no_nul, hnum, space]

theorem nul_notMem_listing (hes : ∀ e ∈ es, e.Valid) : 0 ∉ listing es := by
  intro h
  obtain ⟨l, hl, h0⟩ := List.mem_flatten.mp h
  obtain ⟨e, he, rfl⟩ := List.mem_map.mp hl
  exact nul_notMem_text (hes e he) h0

theorem space_notMem_numeral (n : ℕ) : space ∉ numeral n := fun h =>
  absurd (isDigit_of_mem_numeral h) (by decide)

/-- A word stands in the text of an entry and what follows it as the name, as the number, or in what
follows. -/
theorem place_text (he : e.Valid) (hs : space ∉ s) (hne : s ≠ []) :
    (∃ u, Place (e.text ++ t) s u v) ↔
      (s = e.name ∧ v = List.replicate (e.pad - 1) space ++ numeral e.ino ++ space :: t) ∨
      (s = numeral e.ino ∧ v = t) ∨ ∃ u, Place t s u v := by
  obtain ⟨k, hk⟩ : ∃ k, e.pad = k + 1 := ⟨e.pad - 1, by have := he.pad_pos; omega⟩
  have htext : e.text ++ t =
      e.name ++ space :: (List.replicate k space ++ (numeral e.ino ++ space :: t)) := by
    rw [Entry.text, hk, List.replicate_succ]
    simp
  rw [htext, hk, Nat.add_sub_cancel]
  constructor
  · rintro ⟨u, hu⟩
    rcases (place_word hs he.no_space).mp hu with ⟨-, rfl, rfl⟩ | ⟨u', -, hu'⟩
    · exact Or.inl ⟨rfl, by simp⟩
    · obtain ⟨u'', hu''⟩ := (place_replicate hs hne).mp ⟨u', hu'⟩
      rcases (place_word hs (space_notMem_numeral _)).mp hu'' with ⟨-, hs', rfl⟩ | ⟨w, -, hw⟩
      · exact Or.inr (Or.inl ⟨hs', rfl⟩)
      · exact Or.inr (Or.inr ⟨w, hw⟩)
  · rintro (⟨rfl, rfl⟩ | h)
    · exact ⟨[], (place_word hs he.no_space).mpr (Or.inl ⟨rfl, rfl, by simp⟩)⟩
    · have hrest : ∃ u, Place (numeral e.ino ++ space :: t) s u v := by
        rcases h with ⟨rfl, rfl⟩ | ⟨u, hu⟩
        · exact ⟨[], (place_word hs (space_notMem_numeral _)).mpr (Or.inl ⟨rfl, rfl, rfl⟩)⟩
        · exact ⟨_, (place_word hs (space_notMem_numeral _)).mpr (Or.inr ⟨u, rfl, hu⟩)⟩
      obtain ⟨u, hu⟩ := (place_replicate (k := k) hs hne).mpr hrest
      exact ⟨_, (place_word hs he.no_space).mpr (Or.inr ⟨u, rfl, hu⟩)⟩

/-- **The words of a listing** are the names and the numbers of its entries, and what follows a name
is its number. -/
theorem place_listing (hes : ∀ e ∈ es, e.Valid) (hs : space ∉ s) (hne : s ≠ []) :
    (∃ u, Place (listing es) s u v) ↔ ∃ es₁ e es₂, es = es₁ ++ e :: es₂ ∧
      ((s = e.name ∧ v = List.replicate (e.pad - 1) space ++ numeral e.ino ++
          space :: listing es₂) ∨ (s = numeral e.ino ∧ v = listing es₂)) := by
  induction es with
  | nil =>
    refine ⟨?_, ?_⟩
    · rintro ⟨u, h, -⟩
      exact absurd h (by simp [listing])
    · rintro ⟨es₁, e, es₂, h, -⟩
      exact absurd h (by simp)
  | cons e es ih =>
    rw [listing_cons, place_text (hes e (List.mem_cons_self ..)) hs hne,
      ih fun e he => hes e (List.mem_cons_of_mem _ he)]
    constructor
    · rintro (h | h | ⟨es₁, e', es₂, rfl, h⟩)
      · exact ⟨[], e, es, rfl, Or.inl h⟩
      · exact ⟨[], e, es, rfl, Or.inr h⟩
      · exact ⟨e :: es₁, e', es₂, rfl, h⟩
    · rintro ⟨es₁, e', es₂, heq, h⟩
      cases es₁ with
      | nil =>
        obtain ⟨rfl, rfl⟩ := List.cons.inj heq
        rcases h with h | h
        · exact Or.inl h
        · exact Or.inr (Or.inl h)
      | cons e'' es₁ =>
        obtain ⟨rfl, rfl⟩ := List.cons.inj heq
        exact Or.inr (Or.inr ⟨es₁, e', es₂, rfl, h⟩)

/-- The number behind a name reads back. -/
theorem atoi_behind_name (he : e.Valid) :
    atoi (space :: (List.replicate (e.pad - 1) space ++ numeral e.ino ++ space :: t) ++ 0 :: r) =
      some (e.ino : ℤ) := by
  have heq : space :: (List.replicate (e.pad - 1) space ++ numeral e.ino ++ space :: t) ++ 0 :: r =
      List.replicate (e.pad - 1 + 1) space ++ numeral e.ino ++ space :: (t ++ 0 :: r) := by
    rw [List.replicate_succ]
    simp
  rw [heq]
  exact atoi_numeral he.ino_lt

/-- **A name that is found, and is no number of the listing, is found with the number of an entry of
that name.** -/
theorem entry_of_place (hes : ∀ e ∈ es, e.Valid) (hs : space ∉ s) (hne : s ≠ [])
    (hnum : ∀ e ∈ es, s ≠ numeral e.ino) (h : Place (listing es) s u v) :
    ∃ e ∈ es, e.name = s ∧ ∀ r, atoi (space :: v ++ 0 :: r) = some (e.ino : ℤ) := by
  obtain ⟨es₁, e, es₂, rfl, ⟨rfl, rfl⟩ | ⟨hs', -⟩⟩ := (place_listing hes hs hne).mp ⟨u, h⟩
  · exact ⟨e, by simp, rfl, fun r => atoi_behind_name (hes e (by simp))⟩
  · exact absurd hs' (hnum e (by simp))

/-- The name of an entry is no number. -/
theorem Entry.Valid.ne_numeral (he : e.Valid) : e.name ≠ numeral n := by
  intro h
  obtain ⟨c, hc, hdig⟩ := he.not_number
  rw [h] at hc
  rw [isDigit_of_mem_numeral hc] at hdig
  exact absurd hdig (by decide)

/-- The name of an entry stands in the listing. -/
theorem exists_place_of_mem (hes : ∀ e ∈ es, e.Valid) (he : e ∈ es) :
    ∃ u v, Place (listing es) e.name u v := by
  obtain ⟨es₁, es₂, hsplit⟩ := List.append_of_mem he
  obtain ⟨u, hu⟩ := (place_listing hes (hes e he).no_space (hes e he).ne_nil).mpr
    ⟨es₁, e, es₂, hsplit, Or.inl ⟨rfl, rfl⟩⟩
  exact ⟨u, _, hu⟩

end Files
end EgosNet
