import EgosNet.Files.RoundTrip

/-!
# When `dir_lookup` can be trusted

The search accepts a name wherever it stands between spaces, and what it returns is the number that
is spelled after it.  It does not ask whether the place is the name field of an entry.  Three kinds
of names stand between spaces without being the name of an entry, and are answered with whatever
comes next:

* the empty name, which stands between any two spaces;
* the numeral of an inode of the directory, whose entry ends there --- `atoi` then reads the *name*
  of the next entry, which mostly spells zero, the inode of the root;
* a name with spaces in it that is a piece of the listing, fields and padding alike.

The answer is right by accident when what follows spells -1.  And a name that is longer than the
whole text makes the bound of the loop, an unsigned difference, wrap around: the search then runs on
behind the terminator.

* `Sound`: what a lookup has to do.
* `Mistaken`: the three kinds of names.
* `dirLookup_sound_iff`: a lookup is sound exactly when the name is not longer than the text and not
  mistaken, the accident apart.
-/

namespace EgosNet
namespace Files

open Foundation

/-- What a lookup of `name` has to do in a directory with the entries `es`.  It returns the same
number `n` whatever is behind the terminator of the text, also when nothing there can be read; if
`n` is not negative there is an entry of this name and this number; and if there is no entry of this
name it is -1. -/
def Sound (NINODES dirIno : ℤ) (es : List Entry) (name : List UInt8) : Prop :=
  ∃ n : ℤ, (∀ (files : FileServer) (rest : List UInt8),
      files.block dirIno = listing es ++ 0 :: rest →
        dirLookup NINODES files dirIno name = some n) ∧
    (0 ≤ n → ∃ e ∈ es, e.name = name ∧ (e.ino : ℤ) = n) ∧
    ((∀ e ∈ es, e.name ≠ name) → n = -1)

/-- The names that may stand between spaces without being the name of an entry: the empty name, the
numeral of an inode, and a name with spaces. -/
def Mistaken (es : List Entry) (name : List UInt8) : Prop :=
  name = [] ∨ (∃ e ∈ es, name = numeral e.ino) ∨ space ∈ name

variable {es : List Entry} {name u v : List UInt8} {NINODES dirIno : ℤ}

/-- A mistaken name is the name of no entry. -/
theorem Mistaken.not_listed (hes : ∀ e ∈ es, e.Valid) (h : Mistaken es name) :
    ∀ e ∈ es, e.name ≠ name := by
  rintro e he rfl
  rcases h with h | ⟨e', -, h⟩ | h
  · exact (hes e he).ne_nil h
  · exact (hes e he).ne_numeral h
  · exact (hes e he).no_space h

/-- **When a lookup is sound**: exactly when the name is not longer than the text of the directory
and, if it is of one of the three mistaken kinds, it stands nowhere between spaces or what follows
its first place there spells -1. -/
theorem dirLookup_sound_iff (hes : ∀ e ∈ es, e.Valid) (hblock : (listing es).length < BLOCK_SIZE)
    (hname : 0 ∉ name) (hlen : name.length ≤ CMD_ARG_LEN - 1) (hro : dirIno < NINODES) :
    Sound NINODES dirIno es name ↔ name.length ≤ (listing es).length ∧
      (Mistaken es name → ∀ u v, FirstPlace (listing es) name u v →
        atoi (space :: v ++ [0]) = some (-1)) := by
  have hnul := nul_notMem_listing hes
  rw [BLOCK_SIZE] at hblock
  rw [CMD_ARG_LEN] at hlen
  have hlookup (files : FileServer) : dirLookup NINODES files dirIno name =
      search (files.block dirIno) name := if_pos hro
  simp only [Sound, hlookup]
  constructor
  · rintro ⟨n, hn, -, hother⟩
    have hval (rest : List UInt8) : search (listing es ++ 0 :: rest) name = some n :=
      hn ⟨fun _ => listing es ++ 0 :: rest, fun _ _ => 0⟩ rest rfl
    have hfits : name.length ≤ (listing es).length := by
      by_contra hlt
      have hout := search_of_longer hnul hname (by omega) (by omega)
      rw [hval []] at hout
      exact absurd hout (by simp)
    refine ⟨hfits, fun hmis u v hfirst => ?_⟩
    rcases search_cases hnul hname hfits (by omega) with ⟨u', v', hfirst', hval'⟩ | ⟨hnone, -⟩
    · rw [hfirst.rest_unique hfirst', ← hval' [], hval, hother (hmis.not_listed hes)]
    · exact absurd hfirst.1 (hnone u v)
  · rintro ⟨hfits, hmis⟩
    rcases search_cases hnul hname hfits (by omega) with ⟨u, v, hfirst, hval⟩ | ⟨-, hval⟩
    · by_cases hm : Mistaken es name
      · obtain ⟨n, hn⟩ := atoi_terminated (space :: v)
        have hn1 : n = -1 := Option.some.inj ((hn []).symm.trans (hmis hm u v hfirst))
        refine ⟨-1, fun files rest hfile => ?_, fun h => absurd h (by decide), fun _ => rfl⟩
        rw [hfile, hval, hn, hn1]
      · obtain ⟨hne, hnum, hsp⟩ : name ≠ [] ∧ (∀ e ∈ es, name ≠ numeral e.ino) ∧ space ∉ name := by
          rw [Mistaken] at hm
          push Not at hm
          exact hm
        obtain ⟨e, he, rfl, hread⟩ := entry_of_place hes hsp hne hnum hfirst.1
        refine ⟨e.ino, fun files rest hfile => ?_, fun _ => ⟨e, he, rfl, rfl⟩,
          fun h => absurd rfl (h e he)⟩
        rw [hfile, hval, hread]
    · refine ⟨-1, fun files rest hfile => ?_, fun h => absurd h (by decide), fun _ => rfl⟩
      rw [hfile, hval]

/-- The root directory, `contents[0]` of `mkfs`. -/
def rootEntries : List Entry :=
  [⟨bytes "./", 3, 0⟩, ⟨bytes "../", 3, 0⟩, ⟨bytes "home/", 3, 1⟩, ⟨bytes "bin/", 3, 6⟩]

theorem dirLookup_sound_iff_root :
    listing rootEntries = bytes "./   0 ../   0 home/   1 bin/   6 " ∧
      Sound 128 0 rootEntries (bytes "bin/") := by
  refine ⟨by decide, (dirLookup_sound_iff ?_ (by decide) (by decide) (by decide) (by decide)).mpr
    ⟨by decide, fun h => ?_⟩⟩
  · intro e he
    obtain rfl | rfl | rfl | rfl : e = ⟨bytes "./", 3, 0⟩ ∨ e = ⟨bytes "../", 3, 0⟩ ∨
        e = ⟨bytes "home/", 3, 1⟩ ∨ e = ⟨bytes "bin/", 3, 6⟩ := by
      simpa [rootEntries] using he
    all_goals
      exact ⟨by decide, by decide, by decide, ⟨47, by decide, by decide⟩, by decide, by decide⟩
  · rw [Mistaken] at h
    exact absurd h (by decide)

/-- **The numeral of an inode is found as if it were a name**: in the `/bin` directory without
applications, `6` is answered with the inode of the root. -/
theorem dirLookup_finds_numeral :
    (∀ rest, search (listing (binEntries []) ++ 0 :: rest) (bytes "6") = some 0) ∧
      ¬ Sound 128 BIN_DIR_INODE (binEntries []) (bytes "6") := by
  have hnul : 0 ∉ listing (binEntries []) := by decide
  have hval (rest : List UInt8) :
      search (listing (binEntries []) ++ 0 :: rest) (bytes "6") = some 0 := by
    obtain ⟨n, hn⟩ := search_terminated hnul (show 0 ∉ bytes "6" by decide) (by decide) (by decide)
    have h0 : search (listing (binEntries []) ++ [0]) (bytes "6") = some 0 := by decide
    rw [hn, ← hn [], h0]
  refine ⟨hval, ?_⟩
  rintro ⟨n, hn, hlisted, -⟩
  have hn0 := hn ⟨fun _ => listing (binEntries []) ++ [0], fun _ _ => 0⟩ [] rfl
  rw [dirLookup, if_pos (by decide), hval] at hn0
  obtain rfl : (0 : ℤ) = n := Option.some.inj hn0
  obtain ⟨e, he, hname, -⟩ := hlisted (Int.le_refl 0)
  obtain rfl | rfl : e = ⟨bytes "./", 3, 6⟩ ∨ e = ⟨bytes "../", 3, 0⟩ := by
    simpa [binEntries, appEntries] using he
  all_goals exact absurd hname (by decide)

end Files
end EgosNet
