import EgosNet.Foundation.Loop
import EgosNet.Uip.Input

/-!
# The options of a `SYN`

A TCP header may be followed by options, of which uIP wants one, the maximum segment size.  An
option is a single byte, or a byte, the length of the whole, and data; the list ends where the
header does, or at the option that says so.  `TcpOption` is that format, with values that cannot be
anything else, and `Bears` says that a header has these options.

* `synOptions_bears`: on a header that bears options, the loop of `uip_process` ends, and it has
  found the first segment size among them.
* `synOptions_eq_none_iff`: on any header at all, the loop does not end exactly when it comes to an
  option that leads back to itself.  The position in the options is an 8-bit variable, so an option
  of 255 bytes leads back to the byte before it.
-/

namespace EgosNet
namespace Uip

open Foundation

/-! ## The format -/

/-- A TCP option: a filler, a segment size, or any other. -/
inductive TcpOption where
  | noop
  | mss (value : Word16)
  | other (kind : UInt8) (data : List UInt8) (hkind : kind ≠ TCP_OPT_END ∧ kind ≠ TCP_OPT_NOOP)
      (hlength : data.length + 2 < 256) (hmss : kind = TCP_OPT_MSS → data.length ≠ 2)

/-- The bytes of an option. -/
def TcpOption.bytes : TcpOption → List UInt8
  | .noop => [TCP_OPT_NOOP]
  | .mss value => [TCP_OPT_MSS, TCP_OPT_MSS_LEN, value.b0, value.b1]
  | .other kind data _ _ _ => kind :: UInt8.ofNat (data.length + 2) :: data

/-- The first segment size among options. -/
def firstMss : List TcpOption → Option ℕ
  | [] => none
  | .mss value :: _ => some (value.b0.toNat * 256 + value.b1.toNat)
  | _ :: opts => firstMss opts

/-- The options in so many bytes of a header, and what follows them: nothing, or the option that
ends the list and anything after it. -/
structure Bears (m : Mem) (bound : ℕ) (opts : List TcpOption) (rest : List UInt8) : Prop where
  bytes : m.load Hdr.optdata bound = opts.flatMap TcpOption.bytes ++ rest
  ends : rest = [] ∨ rest.head? = some TCP_OPT_END

/-- The number of bytes of options. -/
def optionBytes (m : Mem) : ℕ := (tcpHeaderWords m - 5) * 4

/-- The segment size that `uip_process` looks for in a `SYN`; `none` if it does not stop looking. -/
def synOptions (m : Mem) : Option (Option ℕ) :=
  if 5 < tcpHeaderWords m then parseMss m (optionBytes m) 256 0 else some none

theorem tcpHeaderWords_lt (m : Mem) : tcpHeaderWords m < 16 := by
  have hlt := (m Hdr.tcpoffset).toNat_lt
  have hshift : (m Hdr.tcpoffset >>> (4 : UInt8)).toNat = (m Hdr.tcpoffset).toNat / 16 := by
    rw [UInt8.toNat_shiftRight]
    exact Nat.shiftRight_eq_div_pow _ 4
  rw [tcpHeaderWords, hshift]
  omega

/-! ## Options that are well-formed -/

section Format

variable {m : Mem} {off n c bound fuel : ℕ} {b : UInt8} {l rest : List UInt8}

/-- The first byte of a block, and the block after it. -/
theorem load_eq_cons (h : m.load off n = b :: l) :
    ∃ k, n = k + 1 ∧ m off = b ∧ m.load (off + 1) k = l := by
  cases n with
  | zero => simp [Mem.load_zero] at h
  | succ k =>
    have hcons : m.load off (k + 1) = m off :: m.load (off + 1) k := by
      simp [Mem.load, List.range_succ_eq_map, Nat.add_comm, Nat.add_left_comm]
    rw [hcons] at h
    obtain ⟨hb, hl⟩ := List.cons.inj h
    exact ⟨k, rfl, hb, hl⟩

/-- **The loop on well-formed options**: it ends, and has found the first segment size.  Here `c` is
the position in the options and `n` the number of bytes from there on. -/
theorem parseMss_load (opts : List TcpOption) (hends : rest = [] ∨ rest.head? = some TCP_OPT_END)
    (hbound : bound < 256) (hc : c + n = bound) (hfuel : opts.length < fuel)
    (h : m.load (Hdr.optdata + c) n = opts.flatMap TcpOption.bytes ++ rest) :
    parseMss m bound fuel c = some (firstMss opts) := by
  obtain ⟨fuel, rfl⟩ : ∃ k, fuel = k + 1 := Nat.exists_eq_succ_of_ne_zero (by omega)
  induction opts generalizing c n fuel with
  | nil =>
    rw [List.flatMap_nil, List.nil_append] at h
    unfold parseMss
    rcases hends with rfl | hend
    · have hn : n = 0 := by
        have hlen := congrArg List.length h
        rwa [Mem.length_load] at hlen
      rw [if_neg (by omega)]
      rfl
    · obtain ⟨l, rfl⟩ : ∃ l, rest = TCP_OPT_END :: l := by
        cases rest with
        | nil => simp at hend
        | cons b l => exact ⟨l, by rw [Option.some.inj hend]⟩
      obtain ⟨j, rfl, hfirst, -⟩ := load_eq_cons h
      rw [if_pos (by omega), if_pos hfirst]
      rfl
  | cons opt opts ih =>
    rw [List.length_cons] at hfuel
    obtain ⟨fuel, rfl⟩ : ∃ k, fuel = k + 1 := Nat.exists_eq_succ_of_ne_zero (by omega)
    rw [List.flatMap_cons, List.append_assoc] at h
    unfold parseMss
    cases opt with
    | noop =>
      obtain ⟨j, rfl, hfirst, hnext⟩ := load_eq_cons h
      have hmod : (c + 1) % 256 = c + 1 := Nat.mod_eq_of_lt (by omega)
      rw [if_pos (by omega), hfirst, if_neg (by decide), if_pos rfl, hmod]
      exact ih (by omega) hnext fuel (by omega)
    | mss value =>
      obtain ⟨j, rfl, hfirst, hnext⟩ := load_eq_cons h
      obtain ⟨j, rfl, hsecond, hnext⟩ := load_eq_cons hnext
      obtain ⟨j, rfl, hhigh, hnext⟩ := load_eq_cons hnext
      obtain ⟨j, rfl, hlow, -⟩ := load_eq_cons hnext
      have hlength : m (Hdr.optdata + 1 + c) = TCP_OPT_MSS_LEN := by
        rw [← hsecond]
        congr 1
        omega
      have hvalue : num16 m (Hdr.optdata + 2 + c) = value.b0.toNat * 256 + value.b1.toNat := by
        rw [← hhigh, ← hlow, num16, show Hdr.optdata + 2 + c = Hdr.optdata + c + 1 + 1 by omega]
      rw [if_pos (by omega), hfirst, if_neg (by decide), if_neg (by decide),
        if_pos ⟨rfl, hlength⟩, hvalue]
      rfl
    | other kind data hkind hdata hmss =>
      obtain ⟨j, rfl, hfirst, hnext⟩ := load_eq_cons h
      obtain ⟨j, rfl, hsecond, hnext⟩ := load_eq_cons hnext
      have hcount : (UInt8.ofNat (data.length + 2)).toNat = data.length + 2 := by
        rw [UInt8.toNat_ofNat']
        exact Nat.mod_eq_of_lt hdata
      have hlength : m (Hdr.optdata + 1 + c) = UInt8.ofNat (data.length + 2) := by
        rw [← hsecond]
        congr 1
        omega
      have hzero : UInt8.ofNat (data.length + 2) ≠ 0 := by
        intro hzero
        rw [hzero] at hcount
        simp at hcount
      have hnot : ¬ (kind = TCP_OPT_MSS ∧ UInt8.ofNat (data.length + 2) = TCP_OPT_MSS_LEN) := by
        rintro ⟨hk, hl⟩
        rw [hl] at hcount
        have hfour : TCP_OPT_MSS_LEN.toNat = 4 := rfl
        exact hmss hk (by omega)
      replace hnext : m.load (Hdr.optdata + c + 1 + 1) j =
          data ++ (opts.flatMap TcpOption.bytes ++ rest) := hnext
      have hlen := congrArg List.length hnext
      rw [Mem.length_load, List.length_append] at hlen
      have hmod : (c + (data.length + 2)) % 256 = c + (data.length + 2) :=
        Nat.mod_eq_of_lt (by omega)
      rw [if_pos (by omega), hfirst, hlength, if_neg hkind.1, if_neg hkind.2, if_neg hnot,
        if_neg hzero, hcount, hmod]
      refine ih (n := j - data.length) (by omega) ?_ fuel (by omega)
      have hdrop := congrArg (List.drop data.length) hnext
      rw [List.drop_left, Mem.load_drop] at hdrop
      rw [← hdrop]
      congr 1
      omega

theorem TcpOption.length_pos (opt : TcpOption) : 0 < opt.bytes.length := by
  cases opt <;> simp [TcpOption.bytes]

/-- There are no more options than bytes. -/
theorem length_le_bytes (opts : List TcpOption) :
    opts.length ≤ (opts.flatMap TcpOption.bytes).length := by
  induction opts with
  | nil => exact Nat.zero_le _
  | cons opt opts ih =>
    have hpos := opt.length_pos
    rw [List.flatMap_cons, List.length_append, List.length_cons]
    omega

theorem optionBytes_le (m : Mem) : optionBytes m ≤ 40 := by
  have hlt := tcpHeaderWords_lt m
  unfold optionBytes
  omega

/-- **What `uip_process` makes of well-formed options**: it finds the first segment size. -/
theorem synOptions_bears {opts : List TcpOption} (h : Bears m (optionBytes m) opts rest) :
    synOptions m = some (firstMss opts) := by
  have hle := optionBytes_le m
  have hlen := congrArg List.length h.bytes
  rw [Mem.length_load, List.length_append] at hlen
  have hopts := length_le_bytes opts
  unfold synOptions
  split_ifs with hwords
  · exact parseMss_load opts h.ends (by omega) (Nat.zero_add _) (by omega) h.bytes
  · have hzero : optionBytes m = 0 := by
      unfold optionBytes
      omega
    have hnil : opts = [] := List.length_eq_zero_iff.mp (by omega)
    rw [hnil]
    rfl

end Format

/-! ## Options that are not -/

section Endless

variable {m : Mem} {bound k : ℕ} {c d : Fin 256}

/-- The body of the loop, at a position. -/
def optionBody (m : Mem) (bound : ℕ) (c : Fin 256) : Fin 256 ⊕ Option ℕ :=
  if c.val < bound then
    if m (Hdr.optdata + c) = TCP_OPT_END then .inr none
    else if m (Hdr.optdata + c) = TCP_OPT_NOOP then .inl (c + 1)
    else if m (Hdr.optdata + c) = TCP_OPT_MSS ∧ m (Hdr.optdata + 1 + c) = TCP_OPT_MSS_LEN then
      .inr (some (num16 m (Hdr.optdata + 2 + c)))
    else if m (Hdr.optdata + 1 + c) = 0 then .inr none
    else .inl (c + (m (Hdr.optdata + 1 + c)).toFin)
  else .inr none

theorem parseMss_eq_runLoop : parseMss m bound k c = runLoop (optionBody m bound) k c := by
  induction k generalizing c with
  | zero => rfl
  | succ k ih =>
    rw [parseMss, runLoop, optionBody]
    split_ifs
    · rfl
    · exact ih (c := c + 1)
    · rfl
    · rfl
    · exact ih (c := c + (m (Hdr.optdata + 1 + c)).toFin)
    · rfl

/-- The option at `c` leads to the one at `d`: over a filler, or by its length.  Positions are
counted modulo 256. -/
inductive LeadsTo (m : Mem) (c : Fin 256) : Fin 256 → Prop
  | noop : c.val < optionBytes m → m (Hdr.optdata + c) = TCP_OPT_NOOP → LeadsTo m c (c + 1)
  | other : c.val < optionBytes m → m (Hdr.optdata + c) ≠ TCP_OPT_END →
      m (Hdr.optdata + c) ≠ TCP_OPT_NOOP →
      ¬ (m (Hdr.optdata + c) = TCP_OPT_MSS ∧ m (Hdr.optdata + 1 + c) = TCP_OPT_MSS_LEN) →
      m (Hdr.optdata + 1 + c) ≠ 0 → LeadsTo m c (c + (m (Hdr.optdata + 1 + c)).toFin)

theorem goesOn_iff : GoesOn (optionBody m (optionBytes m)) c d ↔ LeadsTo m c d := by
  unfold GoesOn optionBody
  constructor
  · intro h
    split_ifs at h with hlt hend hnoop hmss hzero
    · obtain rfl := Sum.inl.inj h
      exact .noop hlt hnoop
    · obtain rfl := Sum.inl.inj h
      exact .other hlt hend hnoop hmss hzero
  · rintro (⟨hlt, hnoop⟩ | ⟨hlt, hend, hnoop, hmss, hzero⟩)
    · rw [if_pos hlt, hnoop, if_neg (by decide), if_pos rfl]
    · rw [if_pos hlt, if_neg hend, if_neg hnoop, if_neg hmss, if_neg hzero]

/-- **The loop does not end exactly when the options lead in a circle.** -/
theorem synOptions_eq_none_iff : synOptions m = none ↔
    ∃ c, Relation.ReflTransGen (LeadsTo m) 0 c ∧ Relation.TransGen (LeadsTo m) c c := by
  have hrel : GoesOn (optionBody m (optionBytes m)) = LeadsTo m := by
    funext c d
    exact propext goesOn_iff
  rw [← hrel, ← endless_iff_cycle, endless_iff_card, Fintype.card_fin, ← parseMss_eq_runLoop]
  unfold synOptions
  split_ifs with hwords
  · exact Iff.rfl
  · have hzero : optionBytes m = 0 := by
      unfold optionBytes
      omega
    rw [hzero]
    simp [parseMss]

end Endless

end Uip
end EgosNet
