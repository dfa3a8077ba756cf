import EgosNet.Files.Directory

/-!
# What `mkfs` lists, `dir_lookup` finds

`mkfs` goes through the files of a build directory, gives the next inode to every one that is an
application, and appends its name and the number to the text of `/bin`.  The number is printed in a
field of width four, so a number below a thousand has a space before it whatever the name is.

The search finds a name in that text by its two neighbours.  A name that is a prefix, a suffix or a
part of another one has a neighbour there that is not a space; and the other words of the text are
the two dots, which have a slash, and the numbers, which are digits.  So the only place of a name is
that of its own entry.

* `binDir`, `binBlock`: the text, and the block that is written.
* `binDir_eq_listing`: the text is a listing with the inodes in order.
* `dirLookup_binDir`: every application is found under its own inode.
-/

namespace EgosNet
namespace Files

open Foundation

/-! ## The `/bin` directory of `mkfs` -/

/-- `BIN_DIR_INODE`. -/
def BIN_DIR_INODE : ℕ := 6

/-- The size of the array `bin_dir`. -/
def BIN_DIR_SIZE : ℕ := 256

/-- What `bin_dir` is initialised with. -/
def binDirInit : List UInt8 := bytes "./   6 ../   0 "

/-- A file is an application if `strstr` finds `.elf` in its name. -/
def isApp (dName : List UInt8) : Bool := bytes ".elf" <:+: dName

/-- The name of an application: the name of the file without its last four characters. -/
def appName (dName : List UInt8) : List UInt8 := dName.take (dName.length - 4)

/-- One turn of the loop over the files: `app_ino` and `bin_dir`. -/
def addFile (s : ℕ × List UInt8) (dName : List UInt8) : ℕ × List UInt8 :=
  if isApp dName then
    (s.1 + 1, s.2 ++ (appName dName ++ padLeft 4 (numeral s.1) ++ [space]))
  else s

/-- `bin_dir` after the loop. -/
def binDir (dNames : List (List UInt8)) : List UInt8 :=
  (dNames.foldl addFile (BIN_DIR_INODE + 1, binDirInit)).2

/-- The block that is written: `bin_dir`, filled with zeros, and what follows it in memory. -/
def binBlock (dNames : List (List UInt8)) (beyond : List UInt8) : List UInt8 :=
  binDir dNames ++ List.replicate (BIN_DIR_SIZE - (binDir dNames).length) 0 ++ beyond

/-- The applications among the files. -/
def appNames (dNames : List (List UInt8)) : List (List UInt8) :=
  (dNames.filter fun d => isApp d).map appName

/-- The names of applications for which the text is meant. -/
structure AppName (name : List UInt8) : Prop where
  ne_nil : name ≠ []
  no_space : space ∉ name
  no_slash : 47 ∉ name
  no_nul : 0 ∉ name
  not_number : ∃ c ∈ name, isDigit c = false

/-! ## The text as a listing -/

/-- The entries of applications, with inodes from `ino` on. -/
def appEntries : ℕ → List (List UInt8) → List Entry
  | _, [] => []
  | ino, name :: names => ⟨name, 4 - (numeral ino).length, ino⟩ :: appEntries (ino + 1) names

/-- The entries of `/bin`. -/
def binEntries (names : List (List UInt8)) : List Entry :=
  ⟨bytes "./", 3, 6⟩ :: ⟨bytes "../", 3, 0⟩ :: appEntries (BIN_DIR_INODE + 1) names

variable {names before after : List (List UInt8)} {name text : List UInt8} {ino : ℕ} {e : Entry}

theorem appNames_cons (d : List UInt8) (dNames : List (List UInt8)) :
    appNames (d :: dNames) = if isApp d then appName d :: appNames dNames else appNames dNames := by
  unfold appNames
  rw [List.filter_cons]
  split_ifs <;> rfl

theorem foldl_addFile (dNames : List (List UInt8)) (ino : ℕ) (text : List UInt8) :
    (dNames.foldl addFile (ino, text)).2 = text ++ listing (appEntries ino (appNames dNames)) := by
  induction dNames generalizing ino text with
  | nil => simp [appNames, appEntries, listing]
  | cons d dNames ih =>
    rw [List.foldl_cons, addFile, appNames_cons]
    split_ifs with hd
    · rw [ih, appEntries, listing_cons, Entry.text, padLeft]
      simp
    · exact ih ino text

/-- **The text of `/bin` is a listing.** -/
theorem binDir_eq_listing (dNames : List (List UInt8)) :
    binDir dNames = listing (binEntries (appNames dNames)) := by
  have hdots : binDirInit =
      (⟨bytes "./", 3, 6⟩ : Entry).text ++ (⟨bytes "../", 3, 0⟩ : Entry).text := by
    decide
  rw [binDir, foldl_addFile, binEntries, listing_cons, listing_cons, hdots, List.append_assoc]

theorem length_numeral_le (h : ino < 1000) : (numeral ino).length ≤ 3 := by
  rw [numeral, List.length_map, Nat.length_toDigits_le_iff (by decide) (by decide)]
  exact h

theorem valid_appEntries (hnames : ∀ n ∈ names, AppName n) (hino : ino + names.length ≤ 1000) :
    ∀ e ∈ appEntries ino names, e.Valid := by
  induction names generalizing ino with
  | nil => simp [appEntries]
  | cons n names ih =>
    rw [List.length_cons] at hino
    intro e he
    rcases List.mem_cons.mp he with rfl | he
    · have hn := hnames n (List.mem_cons_self ..)
      have hlen := length_numeral_le (show ino < 1000 by omega)
      exact ⟨hn.ne_nil, hn.no_space, hn.no_nul, hn.not_number, by dsimp only; omega,
        by dsimp only; omega⟩
    · exact ih (fun n h => hnames n (List.mem_cons_of_mem _ h)) (by omega) e he

theorem valid_binEntries (hnames : ∀ n ∈ names, AppName n)
    (hino : BIN_DIR_INODE + names.length < 1000) : ∀ e ∈ binEntries names, e.Valid := by
  intro e he
  rcases List.mem_cons.mp he with rfl | he
  · exact ⟨by decide, by decide, by decide, ⟨46, by decide, by decide⟩, by decide, by decide⟩
  rcases List.mem_cons.mp he with rfl | he
  · exact ⟨by decide, by decide, by decide, ⟨46, by decide, by decide⟩, by decide, by decide⟩
  · exact valid_appEntries hnames (by omega) e he

/-- An application is entered under the inode of its turn. -/
theorem mem_appEntries (he : e ∈ appEntries ino names) :
    ∃ before after, names = before ++ e.name :: after ∧ e.ino = ino + before.length := by
  induction names generalizing ino with
  | nil => exact absurd he (by simp [appEntries])
  | cons n names ih =>
    rcases List.mem_cons.mp he with rfl | he
    · exact ⟨[], names, rfl, rfl⟩
    · obtain ⟨before, after, rfl, hino⟩ := ih he
      exact ⟨n :: before, after, rfl, by rw [hino, List.length_cons]; omega⟩

theorem exists_mem_appEntries (ino : ℕ) (h : name ∈ names) :
    ∃ e ∈ appEntries ino names, e.name = name := by
  induction names generalizing ino with
  | nil => exact absurd h (by simp)
  | cons n names ih =>
    rcases List.mem_cons.mp h with rfl | h
    · exact ⟨_, List.mem_cons_self .., rfl⟩
    · obtain ⟨e, he, hname⟩ := ih (ino + 1) h
      exact ⟨e, List.mem_cons_of_mem _ he, hname⟩

theorem notMem_before (hnodup : (before ++ name :: after).Nodup) : name ∉ before := by
  intro hmem
  exact (List.nodup_append.mp hnodup).2.2 name hmem name (List.mem_cons_self ..) rfl

/-- In a list of distinct names a name has one turn. -/
theorem length_before_unique (hnodup : (before ++ name :: after).Nodup)
    {before' after' : List (List UInt8)}
    (h : before ++ name :: after = before' ++ name :: after') : before.length = before'.length := by
  have hout := notMem_before hnodup
  have hout' := notMem_before (h ▸ hnodup)
  have hidx := congrArg (List.idxOf name) h
  rwa [List.idxOf_append_of_notMem hout, List.idxOf_append_of_notMem hout', List.idxOf_cons_self,
    List.idxOf_cons_self] at hidx

/-- An entry of `/bin` with the name of an application is the entry of that application. -/
theorem ino_of_mem_binEntries (hnodup : (before ++ name :: after).Nodup) (hname : AppName name)
    (he : e ∈ binEntries (before ++ name :: after)) (hen : e.name = name) :
    e.ino = BIN_DIR_INODE + 1 + before.length := by
  have hslash {c : UInt8} (hc : c ∈ e.name) : c ≠ 47 := by
    rintro rfl
    rw [hen] at hc
    exact hname.no_slash hc
  rcases List.mem_cons.mp he with rfl | he
  · exact absurd rfl (hslash (c := 47) (by decide))
  rcases List.mem_cons.mp he with rfl | he
  · exact absurd rfl (hslash (c := 47) (by decide))
  · obtain ⟨before', after', heq, hino⟩ := mem_appEntries he
    rw [hen] at heq
    rw [hino, length_before_unique hnodup heq]

/-- Text that fits `bin_dir` is terminated in the block. -/
theorem exists_binBlock_eq {dNames : List (List UInt8)}
    (hfits : (binDir dNames).length < BIN_DIR_SIZE) (beyond : List UInt8) :
    ∃ r, binBlock dNames beyond = binDir dNames ++ 0 :: r := by
  obtain ⟨k, hk⟩ : ∃ k, BIN_DIR_SIZE - (binDir dNames).length = k + 1 :=
    ⟨BIN_DIR_SIZE - (binDir dNames).length - 1, by omega⟩
  refine ⟨List.replicate k 0 ++ beyond, ?_⟩
  rw [binBlock, hk, List.replicate_succ]
  simp

/-- **Every application that `mkfs` lists is found under its own inode.**  The files of the build
directory are any that give these applications, in their order; their names are distinct words and
not numbers, the text fits `bin_dir`, and the inodes stay below a thousand. -/
theorem dirLookup_binDir {dNames : List (List UInt8)} {beyond : List UInt8} {NINODES : ℤ}
    {files : FileServer} (hdNames : appNames dNames = before ++ name :: after)
    (hnodup : (before ++ name :: after).Nodup) (hnames : ∀ n ∈ before ++ name :: after, AppName n)
    (hfits : (binDir dNames).length < BIN_DIR_SIZE)
    (hino : BIN_DIR_INODE + (before ++ name :: after).length < 1000)
    (hN : (BIN_DIR_INODE : ℤ) < NINODES)
    (hfile : files.block BIN_DIR_INODE = binBlock dNames beyond) :
    dirLookup NINODES files BIN_DIR_INODE name = some (BIN_DIR_INODE + 1 + before.length) := by
  have hname : AppName name := hnames name (by simp)
  have hvalid := valid_binEntries hnames hino
  have htext : binDir dNames = listing (binEntries (before ++ name :: after)) := by
    rw [binDir_eq_listing, hdNames]
  obtain ⟨r, hblock⟩ := exists_binBlock_eq hfits beyond
  -- the entry of the name is a place, so the search stops at one, which is that of the entry
  obtain ⟨e₀, he₀, hen₀⟩ : ∃ e ∈ binEntries (before ++ name :: after), e.name = name := by
    obtain ⟨e, he, hen⟩ := exists_mem_appEntries (BIN_DIR_INODE + 1)
      (show name ∈ before ++ name :: after by simp)
    exact ⟨e, List.mem_cons_of_mem _ (List.mem_cons_of_mem _ he), hen⟩
  obtain ⟨u₀, v₀, hplace₀⟩ := exists_place_of_mem hvalid he₀
  rw [← htext, hen₀] at hplace₀
  have hlen := hplace₀.length_lt
  rw [BIN_DIR_SIZE] at hfits
  rw [dirLookup, if_pos hN, hfile, hblock]
  rcases search_cases (by rw [htext]; exact nul_notMem_listing hvalid) hname.no_nul
    (show name.length ≤ (binDir dNames).length by omega) (by omega) with
    ⟨u, v, hfirst, hval⟩ | ⟨hnone, -⟩
  · obtain ⟨e, he, hen, hread⟩ := entry_of_place hvalid hname.no_space hname.ne_nil
      (fun e he h => by
        rw [h] at hen₀
        exact (hvalid e₀ he₀).ne_numeral hen₀) (htext ▸ hfirst.1)
    rw [hval, hread, ino_of_mem_binEntries hnodup hname he hen]
    rfl
  · exact absurd hplace₀ (hnone u₀ v₀)

/-- Three applications whose names contain one another. -/
def threeFiles : List (List UInt8) :=
  [bytes "ls.elf", bytes "README", bytes "lsof.elf", bytes "als.elf"]

/-- A file server that has the directory of the three applications. -/
def threeServer : FileServer := ⟨fun _ => binBlock threeFiles [], fun _ _ => 0⟩

theorem dirLookup_binDir_three :
    dirLookup 128 threeServer BIN_DIR_INODE (bytes "als") = some (BIN_DIR_INODE + 1 + 2) :=
  dirLookup_binDir
    (show appNames threeFiles = [bytes "ls", bytes "lsof"] ++ bytes "als" :: [] by decide)
    (by decide)
    (by
      intro n hn
      obtain rfl | rfl | rfl : n = bytes "ls" ∨ n = bytes "lsof" ∨ n = bytes "als" := by
        simpa using hn
      all_goals
        exact ⟨by decide, by decide, by decide, by decide, ⟨108, by decide, by decide⟩⟩)
    (by decide) (by decide) (by decide)
    (show threeServer.block BIN_DIR_INODE = binBlock threeFiles [] from rfl)

end Files
end EgosNet
