import Gnhast.Hubhtml
import Gnhast.Insteoncoll
import Gnhast.Lib.Buffers
import Gnhast.Theorems.PlmFraming

/-!
# The text that is read from a hub

Whatever a hub sends, the callback decodes it from the front, past zeros and whole commands, and nothing is written behind the end of
an array. A decoded byte is an index as it is, with its sign: where 0x80 or more follows a start, the table is read in front of its
beginning. And a negative answer is not followed by a `goto`, so what stands behind it is drained with it.
-/

namespace Gnhast.Insteon

open CStr Machines

/-! ## Decoding -/

theorem hexLoop_total {n : Nat} {inp : Str} {i : Nat} {out : Vector Octet n} (h : inp.length ≤ 2 * (n - i) + 1) :
    ∃ out', hexLoop inp i out = .ok out' := by
  fun_induction hexLoop inp i out with
  | case1 b inp i out => exact ⟨out, rfl⟩
  | case2 a b inp i out ha hi ih =>
    simp only [List.length_cons] at h
    exact ih (by omega)
  | case3 a b inp i out ha hi =>
    simp only [List.length_cons] at h
    omega
  | case4 inp i out _ => exact ⟨out, rfl⟩

theorem hexDecode_total {n : Nat} (inp : Str) (len : Nat) (hl : len % 2 = 0) (hn : len ≤ 2 * n) (out : Vector Octet n) :
    ∃ out', hexDecode inp len out = .ok (some out') := by
  have htake : (inp.take len).length ≤ len := List.length_take_le len inp
  obtain ⟨out', h⟩ : ∃ out', hexLoop (inp.take len) 0 out = .ok out' := hexLoop_total (by omega)
  refine ⟨out', ?_⟩
  unfold hexDecode
  rw [if_neg (by omega), h]
  rfl

/-- Only so many characters are looked at. -/
theorem hexDecode_congr {n : Nat} {inp inp' : Str} {len : Nat} (h : inp.take len = inp'.take len) (out : Vector Octet n) :
    hexDecode inp len out = hexDecode inp' len out := by
  unfold hexDecode
  rw [h]

/-- What stands in front of the byte that is written next is kept. -/
theorem getElem_hexLoop {n : Nat} {inp : Str} {i : Nat} {out out' : Vector Octet n} (h : hexLoop inp i out = .ok out') {k : Nat}
    (hk : k < i) (hn : k < n) : out'[k] = out[k] := by
  fun_induction hexLoop inp i out with
  | case1 b inp i out =>
    cases h
    rfl
  | case2 a b inp i out ha hi ih =>
    rw [ih h (by omega)]
    exact Vector.getElem_set_ne hi hn (by omega)
  | case3 a b inp i out ha hi => cases h
  | case4 inp i out _ =>
    cases h
    rfl

theorem copyout_eq {hub : Hub} {n : Nat} (hn : n ≤ hub.workbuf.length) (h64 : n ≤ 64) :
    ∃ hd, hub.copyout n = .ok { hub with hubdata := hd } ∧ hd.toList.take n = hub.workbuf.take n := by
  unfold Hub.copyout
  rw [if_neg (by omega)]
  exact ⟨_, rfl, Buffers.take_overlay hn h64 hub.hubdata⟩

/-! ## One round -/

/-- What is in `plmdata` when the first two bytes of a text have been decoded. -/
def Decodes (old : Vector Octet 32) (text : Str) (cur : Vector Octet 32) : Prop :=
  4 ≤ text.length ∧ hexDecode text 4 old = .ok (some cur)

theorem exists_decodes {text : Str} (h : 4 ≤ text.length) (old : Vector Octet 32) : ∃ cur, Decodes old text cur := by
  obtain ⟨cur, hc⟩ := hexDecode_total text 4 rfl (by decide) old
  exact ⟨cur, h, hc⟩

theorem hubStep_eq {hub : Hub} {cur : Vector Octet 32} (h : Decodes hub.plmdata hub.workbuf cur) :
    ∃ hd, hubStep hub = hubDecoded { hub with hubdata := hd, plmdata := cur } := by
  obtain ⟨h4, hc⟩ := h
  obtain ⟨hd, hcopy, htake⟩ := copyout_eq h4 (by decide)
  refine ⟨hd, ?_⟩
  unfold hubStep
  rw [if_neg (by omega), hcopy]
  simp only [bind, Except.bind]
  rw [hexDecode_congr htake, hc]

theorem hubDecoded_zero {hub : Hub} (h : (getElem hub.plmdata 0 hubAt0) = 0) : hubDecoded hub = .ok (.inl (hub.drain 2)) := by
  unfold hubDecoded
  dsimp only
  rw [if_pos h]

/-- Something that is not a start. -/
theorem hubDecoded_funny {hub : Hub} (h : (getElem hub.plmdata 0 hubAt0) ≠ 0) (h' : (getElem hub.plmdata 0 hubAt0) ≠ plmStart) :
    hubDecoded hub = .ok (.inr (hub.drain 2)) := by
  unfold hubDecoded
  dsimp only
  rw [if_neg h, if_pos h']

theorem cmdlenAt_of_lt {c : Octet} (h : c.toNat < 128) : cmdlenAt c = .ok (plmCmdlen c) := by
  have hi : ¬ c.toInt < 0 := by
    rw [BitVec.toInt_eq_toNat_cond]
    split <;> omega
  unfold cmdlenAt
  rw [if_neg hi]

theorem cmdlenAt_of_ge {c : Octet} (h : 128 ≤ c.toNat) : cmdlenAt c = .error .badIndex := by
  have hc := c.isLt
  have hi : c.toInt < 0 := by
    rw [BitVec.toInt_eq_toNat_cond]
    split <;> omega
  unfold cmdlenAt
  rw [if_pos hi]

/-- A start in front of a byte that has no length. -/
theorem hubDecoded_unknown {hub : Hub} (h0 : (getElem hub.plmdata 0 hubAt0) = plmStart) (h1 : (getElem hub.plmdata 1 hubAt1).toNat < 128)
    (hc : plmCmdlen (getElem hub.plmdata 1 hubAt1) = 0) : ∃ r, hubDecoded hub = .ok (.inr r) := by
  unfold hubDecoded
  dsimp only
  rw [h0, if_neg (by decide), if_neg (by decide), cmdlenAt_of_lt h1, hc]
  exact ⟨_, rfl⟩

/-- A negative answer: what stands behind it is taken for a command that has no length. -/
theorem hubDecoded_nak {hub : Hub} (h0 : (getElem hub.plmdata 0 hubAt0) = plmStart) (h1 : (getElem hub.plmdata 1 hubAt1) = plmcmdNak) :
    hubDecoded hub = .ok (.inr ((hub.drain 4).drain 4)) := by
  unfold hubDecoded
  dsimp only
  rw [h0, h1, if_neg (by decide), if_neg (by decide), if_pos rfl, cmdlenAt_of_lt (by decide)]
  rfl

/-- The table is read in front of its beginning. -/
theorem hubDecoded_bad {hub : Hub} (h0 : (getElem hub.plmdata 0 hubAt0) = plmStart) (h1 : 128 ≤ (getElem hub.plmdata 1 hubAt1).toNat) :
    hubDecoded hub = .error .badIndex := by
  unfold hubDecoded
  dsimp only
  rw [h0, if_neg (by decide), if_neg (by decide), cmdlenAt_of_ge h1]
  rfl

theorem toNat_lt_of_known {c : Octet} (h : plmCmdlen c ≠ 0) : c.toNat < 128 := by
  have htable : ∀ p ∈ cmdlenTable, p.1.toNat < 128 := by decide
  exact htable _ ((plmCmdlen_cases c).resolve_left h)

/-- A start in front of a command. -/
theorem hubDecoded_command {hub : Hub} (h0 : (getElem hub.plmdata 0 hubAt0) = plmStart) (hc : plmCmdlen (getElem hub.plmdata 1 hubAt1) ≠ 0) :
    hubDecoded hub =
      if hub.workbuf.length < plmCmdlen (getElem hub.plmdata 1 hubAt1) * 2 then .ok (.inr hub)
      else hubClen hub (plmCmdlen (getElem hub.plmdata 1 hubAt1) * 2) >>= fun p =>
        if hub.workbuf.length < p.2 then .ok (.inr p.1) else (hubGrab p.1 p.2).map .inl := by
  have hnak : hub.plmdata[1] ≠ plmcmdNak := by
    intro he
    rw [he] at hc
    exact hc (by decide)
  unfold hubDecoded
  dsimp only
  rw [h0, if_neg (by decide), if_neg (by decide), if_neg hnak, cmdlenAt_of_lt (toNat_lt_of_known hc)]
  simp only [bind, Except.bind]
  rw [if_neg (by omega)]

theorem hubClen_plain {hub : Hub} (h : (getElem hub.plmdata 1 hubAt1) ≠ plmSend) (clen : Nat) : hubClen hub clen = .ok (hub, clen) := by
  unfold hubClen
  rw [if_neg h]

/-- The number of characters of an echo. -/
def echoLen (plmdata : Vector Octet 32) : Nat := if (getElem plmdata 5 hubAt5) &&& plmflagExt ≠ 0 then extSendLen * 2 else plmCmdlen plmSend * 2

theorem hubClen_echo (hub : Hub) (h : (getElem hub.plmdata 1 hubAt1) = plmSend) (hl : plmCmdlen plmSend * 2 ≤ hub.workbuf.length)
    {all : Vector Octet 32} (hd : hexDecode hub.workbuf (plmCmdlen plmSend * 2) hub.plmdata = .ok (some all)) :
    ∃ hd, hubClen hub (plmCmdlen plmSend * 2) = .ok ({ hub with hubdata := hd, plmdata := all }, echoLen all) := by
  obtain ⟨hubdata, hcopy, htake⟩ := copyout_eq hl (by decide)
  refine ⟨hubdata, ?_⟩
  unfold hubClen
  rw [if_pos h, hcopy]
  simp only [bind, Except.bind]
  rw [hexDecode_congr htake, hd]
  rfl

theorem hubGrab_eq (hub : Hub) {clen : Nat} (hl : clen ≤ hub.workbuf.length) (heven : clen % 2 = 0) (h60 : clen ≤ 60) :
    ∃ hd cmd, hexDecode hub.workbuf clen (Vector.replicate 30 0) = .ok (some cmd) ∧
      hubGrab hub clen = .ok ⟨hub.workbuf.drop clen, hub.workfifo ++ [cmd], hd, hub.plmdata⟩ := by
  obtain ⟨hubdata, hcopy, htake⟩ := copyout_eq hl (by omega)
  obtain ⟨cmd, hcmd⟩ := hexDecode_total hub.workbuf clen heven (by omega) (Vector.replicate 30 (0 : Octet))
  refine ⟨hubdata, cmd, hcmd, ?_⟩
  unfold hubGrab
  rw [hcopy]
  simp only [bind, Except.bind]
  rw [hexDecode_congr htake, hcmd]
  rfl

theorem even_echoLen (all : Vector Octet 32) : echoLen all % 2 = 0 ∧ echoLen all ≤ 60 ∧ 0 < echoLen all := by
  unfold echoLen
  split <;> decide

/-- A round that takes a command. -/
theorem hubStep_command {hub : Hub} {cur : Vector Octet 32} (h : Decodes hub.plmdata hub.workbuf cur) (h0 : (getElem cur 0 hubAt0) = plmStart)
    (hc : plmCmdlen (getElem cur 1 hubAt1) ≠ 0) (hs : (getElem cur 1 hubAt1) ≠ plmSend) (hl : plmCmdlen (getElem cur 1 hubAt1) * 2 ≤ hub.workbuf.length) :
    ∃ hd cmd, hexDecode hub.workbuf (plmCmdlen (getElem cur 1 hubAt1) * 2) (Vector.replicate 30 0) = .ok (some cmd) ∧
      hubStep hub = .ok (.inl ⟨hub.workbuf.drop (plmCmdlen (getElem cur 1 hubAt1) * 2), hub.workfifo ++ [cmd], hd, cur⟩) := by
  have hmax := plmCmdlen_le_max cur[1]
  obtain ⟨hd, he⟩ := hubStep_eq h
  obtain ⟨hd', cmd, hcmd, hg⟩ := hubGrab_eq { hub with hubdata := hd, plmdata := cur } hl (by omega) (by omega)
  refine ⟨hd', cmd, hcmd, ?_⟩
  rw [he, hubDecoded_command h0 hc, if_neg (Nat.not_lt.mpr hl), hubClen_plain hs]
  simp only [bind, Except.bind]
  rw [if_neg (Nat.not_lt.mpr hl), hg]
  rfl

/-- A round that takes an echo. -/
theorem hubStep_echo {hub : Hub} {cur all : Vector Octet 32} (h : Decodes hub.plmdata hub.workbuf cur) (h0 : (getElem cur 0 hubAt0) = plmStart)
    (hs : (getElem cur 1 hubAt1) = plmSend) (hd : hexDecode hub.workbuf (plmCmdlen plmSend * 2) cur = .ok (some all))
    (hl : plmCmdlen plmSend * 2 ≤ hub.workbuf.length) (hle : echoLen all ≤ hub.workbuf.length) :
    ∃ hd cmd, hexDecode hub.workbuf (echoLen all) (Vector.replicate 30 0) = .ok (some cmd) ∧
      hubStep hub = .ok (.inl ⟨hub.workbuf.drop (echoLen all), hub.workfifo ++ [cmd], hd, all⟩) := by
  obtain ⟨heven, h60, -⟩ := even_echoLen all
  obtain ⟨hd₁, he⟩ := hubStep_eq h
  obtain ⟨hd₂, hclen⟩ := hubClen_echo { hub with hubdata := hd₁, plmdata := cur } hs hl hd
  obtain ⟨hd₃, cmd, hcmd, hg⟩ := hubGrab_eq { hub with hubdata := hd₂, plmdata := all } hle heven h60
  refine ⟨hd₃, cmd, hcmd, ?_⟩
  have hknown : plmCmdlen cur[1] ≠ 0 := by
    rw [hs]
    decide
  rw [he, hubDecoded_command h0 hknown]
  simp only [hs]
  rw [if_neg (Nat.not_lt.mpr hl), hclen]
  simp only [bind, Except.bind]
  rw [if_neg (Nat.not_lt.mpr hle), hg]
  rfl

/-- A round that waits for the rest of a command. -/
theorem hubStep_short {hub : Hub} {cur : Vector Octet 32} (h : Decodes hub.plmdata hub.workbuf cur) (h0 : (getElem cur 0 hubAt0) = plmStart)
    (hc : plmCmdlen (getElem cur 1 hubAt1) ≠ 0) (hl : hub.workbuf.length < plmCmdlen (getElem cur 1 hubAt1) * 2) :
    ∃ r, hubStep hub = .ok (.inr r) ∧ r.workbuf = hub.workbuf ∧ r.workfifo = hub.workfifo := by
  obtain ⟨hd, he⟩ := hubStep_eq h
  rw [he, hubDecoded_command h0 hc, if_pos hl]
  exact ⟨_, rfl, rfl, rfl⟩

/-- A round that waits for the rest of an extended echo. -/
theorem hubStep_short_echo {hub : Hub} {cur all : Vector Octet 32} (h : Decodes hub.plmdata hub.workbuf cur)
    (h0 : (getElem cur 0 hubAt0) = plmStart) (hs : (getElem cur 1 hubAt1) = plmSend) (hd : hexDecode hub.workbuf (plmCmdlen plmSend * 2) cur = .ok (some all))
    (hl : plmCmdlen plmSend * 2 ≤ hub.workbuf.length) (hle : hub.workbuf.length < echoLen all) :
    ∃ r, hubStep hub = .ok (.inr r) ∧ r.workbuf = hub.workbuf ∧ r.workfifo = hub.workfifo := by
  obtain ⟨hd₁, he⟩ := hubStep_eq h
  obtain ⟨hd₂, hclen⟩ := hubClen_echo { hub with hubdata := hd₁, plmdata := cur } hs hl hd
  have hknown : plmCmdlen cur[1] ≠ 0 := by
    rw [hs]
    decide
  rw [he, hubDecoded_command h0 hknown]
  simp only [hs]
  rw [if_neg (Nat.not_lt.mpr hl), hclen]
  simp only [bind, Except.bind]
  rw [if_pos hle]
  exact ⟨_, rfl, rfl, rfl⟩

/-! ## Any text -/

/-- What a round passes: a zero, a whole command, or a whole echo, whose flags are decoded too. -/
inductive Passes : Vector Octet 32 × Str → Vector Octet 32 × Str → Prop
  | zero {old cur : Vector Octet 32} {text : Str} (h : Decodes old text cur) (h0 : (getElem cur 0 hubAt0) = 0) :
      Passes (old, text) (cur, text.drop 2)
  | command {old cur : Vector Octet 32} {text : Str} (h : Decodes old text cur) (h0 : (getElem cur 0 hubAt0) = plmStart)
      (hc : plmCmdlen (getElem cur 1 hubAt1) ≠ 0) (hs : (getElem cur 1 hubAt1) ≠ plmSend) (hl : plmCmdlen (getElem cur 1 hubAt1) * 2 ≤ text.length) :
      Passes (old, text) (cur, text.drop (plmCmdlen (getElem cur 1 hubAt1) * 2))
  | echo {old cur all : Vector Octet 32} {text : Str} (h : Decodes old text cur) (h0 : (getElem cur 0 hubAt0) = plmStart) (hs : (getElem cur 1 hubAt1) = plmSend)
      (hd : hexDecode text (plmCmdlen plmSend * 2) cur = .ok (some all)) (hl : plmCmdlen plmSend * 2 ≤ text.length)
      (hle : echoLen all ≤ text.length) : Passes (old, text) (all, text.drop (echoLen all))

/-- No start is followed by a byte of 0x80 or more, in front of a text and behind all zeros and whole commands in front of it. -/
def InRange (plmdata : Vector Octet 32) (text : Str) : Prop :=
  ∀ old rest cur, Relation.ReflTransGen Passes (plmdata, text) (old, rest) → Decodes old rest cur → (getElem cur 0 hubAt0) = plmStart →
    (getElem cur 1 hubAt1).toNat < 128

/-- A round goes on behind what it passes. -/
theorem hubStep_passes {hub : Hub} {s : Vector Octet 32 × Str} (h : Passes (hub.plmdata, hub.workbuf) s) :
    ∃ hub', hubStep hub = .ok (.inl hub') ∧ (hub'.plmdata, hub'.workbuf) = s := by
  generalize hs : (hub.plmdata, hub.workbuf) = s₀ at h
  cases h with
  | zero h h0 =>
    cases hs
    obtain ⟨hd, he⟩ := hubStep_eq h
    rw [he, hubDecoded_zero h0]
    exact ⟨_, rfl, rfl⟩
  | command h h0 hc hsend hl =>
    cases hs
    obtain ⟨hd, cmd, -, he⟩ := hubStep_command h h0 hc hsend hl
    exact ⟨_, he, rfl⟩
  | echo h h0 hsend hd hl hle =>
    cases hs
    obtain ⟨hd, cmd, -, he⟩ := hubStep_echo h h0 hsend hd hl hle
    exact ⟨_, he, rfl⟩

theorem length_passes {s s' : Vector Octet 32 × Str} (h : Passes s s') : s'.2.length < s.2.length := by
  cases h with
  | zero h h0 =>
    have h4 := h.1
    simp only [List.length_drop]
    omega
  | command h h0 hc hs hl =>
    simp only [List.length_drop]
    omega
  | echo h h0 hs hd hl hle =>
    rename_i old cur all text
    have hpos := (even_echoLen all).2.2
    simp only [List.length_drop]
    omega

/-- A round stops, passes something, or reads in front of the table. -/
theorem hubStep_cases (hub : Hub) :
    (∃ r, hubStep hub = .ok (.inr r)) ∨ (∃ s, Passes (hub.plmdata, hub.workbuf) s) ∨
      ∃ cur, Decodes hub.plmdata hub.workbuf cur ∧ (getElem cur 0 hubAt0) = plmStart ∧ 128 ≤ (getElem cur 1 hubAt1).toNat ∧ hubStep hub = .error .badIndex := by
  rcases Nat.lt_or_ge hub.workbuf.length 4 with hlt | h4
  · refine Or.inl ⟨hub, ?_⟩
    unfold hubStep
    rw [if_pos hlt]
  obtain ⟨cur, h⟩ := exists_decodes h4 hub.plmdata
  obtain ⟨hd, he⟩ := hubStep_eq h
  by_cases hz : cur[0] = 0
  · exact Or.inr (Or.inl ⟨_, .zero h hz⟩)
  by_cases h0 : cur[0] = plmStart
  · rcases Nat.lt_or_ge cur[1].toNat 128 with h1 | h1
    · by_cases hc : plmCmdlen cur[1] = 0
      · obtain ⟨r, hr⟩ : ∃ r, hubDecoded { hub with hubdata := hd, plmdata := cur } = .ok (.inr r) :=
          hubDecoded_unknown h0 h1 hc
        exact Or.inl ⟨r, he.trans hr⟩
      rcases Nat.lt_or_ge hub.workbuf.length (plmCmdlen cur[1] * 2) with hshort | hl
      · obtain ⟨r, hr, -⟩ := hubStep_short h h0 hc hshort
        exact Or.inl ⟨r, hr⟩
      by_cases hs : cur[1] = plmSend
      · rw [hs] at hl
        obtain ⟨all, ha⟩ := hexDecode_total hub.workbuf (plmCmdlen plmSend * 2) (by decide) (by decide) cur
        rcases Nat.lt_or_ge hub.workbuf.length (echoLen all) with hshort | hle
        · obtain ⟨r, hr, -⟩ := hubStep_short_echo h h0 hs ha hl hshort
          exact Or.inl ⟨r, hr⟩
        · exact Or.inr (Or.inl ⟨_, .echo h h0 hs ha hl hle⟩)
      · exact Or.inr (Or.inl ⟨_, .command h h0 hc hs hl⟩)
    · exact Or.inr (Or.inr ⟨cur, h, h0, h1, he.trans (hubDecoded_bad h0 h1)⟩)
  · exact Or.inl ⟨_, he.trans (hubDecoded_funny hz h0)⟩

/-- No array is written behind its end. -/
theorem hubStep_ne_overflow (hub : Hub) : hubStep hub ≠ .error .overflow := by
  intro h
  obtain ⟨r, hr⟩ | ⟨s, hp⟩ | ⟨cur, -, -, -, he⟩ := hubStep_cases hub
  · rw [h] at hr
    cases hr
  · obtain ⟨hub', hr, -⟩ := hubStep_passes hp
    rw [h] at hr
    cases hr
  · rw [h] at he
    cases he

/-- The callback returns exactly when the table is read where it is. -/
theorem halts_iff_inRange (hub : Hub) : (∃ r, Halts hubStep hub r) ↔ InRange hub.plmdata hub.workbuf := by
  constructor
  · rintro ⟨r, hr⟩ old rest cur hpass hdec h0
    by_contra hge
    obtain ⟨hub', hr', hs⟩ : ∃ hub', Halts hubStep hub' r ∧ (hub'.plmdata, hub'.workbuf) = (old, rest) := by
      generalize (old, rest) = s at hpass
      induction hpass with
      | refl => exact ⟨hub, hr, rfl⟩
      | tail _ hp ih =>
        obtain ⟨hub₁, hr₁, rfl⟩ := ih
        obtain ⟨hub₂, he, hs⟩ := hubStep_passes hp
        exact ⟨hub₂, hr₁.next he, hs⟩
    cases hs
    obtain ⟨hd, he⟩ := hubStep_eq hdec
    rw [hubDecoded_bad h0 (Nat.not_lt.mp hge)] at he
    exact hr'.ne_error _ he
  · refine exists_halts_of_invariant (I := fun hub : Hub => InRange hub.plmdata hub.workbuf) (fun hub => hub.workbuf.length)
      fun hub hin => ?_
    obtain hr | ⟨s, hp⟩ | ⟨cur, hdec, h0, h1, -⟩ := hubStep_cases hub
    · exact Or.inl hr
    · obtain ⟨hub', he, rfl⟩ := hubStep_passes hp
      exact Or.inr ⟨hub', he, fun old rest cur hpass => hin old rest cur (hpass.head hp), length_passes hp⟩
    · have hlt := hin _ _ cur .refl hdec h0
      omega

/-! ## Text of bytes -/

/-- The hexadecimal text of some bytes. -/
def hexText (bytes : List Octet) : Str := bytes.flatMap hex2

theorem length_hexText (bytes : List Octet) : (hexText bytes).length = 2 * bytes.length := by
  induction bytes with
  | nil => rfl
  | cons b bytes ih =>
    have hcons : hexText (b :: bytes) = hex2 b ++ hexText bytes := rfl
    have htwo : (hex2 b).length = 2 := rfl
    rw [hcons, List.length_append, ih, htwo, List.length_cons]
    omega

theorem hexText_append (l m : List Octet) : hexText (l ++ m) = hexText l ++ hexText m := List.flatMap_append

theorem take_hexText {k : Nat} (bytes : List Octet) (h : k ≤ bytes.length) :
    (hexText bytes).take (2 * k) = hexText (bytes.take k) := by
  have hk : (hexText (bytes.take k)).length = 2 * k := by
    rw [length_hexText, List.length_take]
    omega
  have hsplit : hexText bytes = hexText (bytes.take k) ++ hexText (bytes.drop k) := by
    rw [← hexText_append, List.take_append_drop]
  rw [hsplit, ← hk, List.take_left]

theorem hexOf_digit {n : Nat} (h : n < 16) : (str "0123456789ABCDEF").getD n 0 ≠ chNul ∧
    hexOf ((str "0123456789ABCDEF").getD n 0) = BitVec.ofNat 8 n := by
  revert n
  decide

/-- A byte is decoded from its two digits. -/
theorem hexLoop_hex2 {n : Nat} (o : Octet) (s : Str) {i : Nat} (hi : i < n) (out : Vector Octet n) :
    hexLoop (hex2 o ++ s) i out = hexLoop s (i + 1) (out.set i o) := by
  have ho := o.isLt
  obtain ⟨hne, ha⟩ := hexOf_digit (n := o.toNat / 16) (by omega)
  obtain ⟨-, hb⟩ := hexOf_digit (n := o.toNat % 16) (by omega)
  have hbyte : BitVec.ofNat 8 (o.toNat / 16) <<< 4 + BitVec.ofNat 8 (o.toNat % 16) = o := by
    bv_omega
  unfold hex2
  rw [List.cons_append, List.cons_append, List.nil_append, hexLoop, if_neg hne, dif_pos hi, ha, hb, hbyte]

theorem hexLoop_hexText {n : Nat} {bytes : List Octet} {i : Nat} (h : i + bytes.length ≤ n) (out : Vector Octet n) :
    hexLoop (hexText bytes) i out =
      .ok (Vector.ofFn fun k => if k.val < i then out[k] else bytes.getD (k - i) out[k]) := by
  induction bytes generalizing i out with
  | nil =>
    have hsame : (Vector.ofFn fun k => if k.val < i then out[k] else [].getD (k.val - i) out[k]) = out := by
      refine Vector.ext fun k hk => ?_
      simp
    rw [hsame]
    rfl
  | cons b bytes ih =>
    rw [List.length_cons] at h
    have hcons : hexText (b :: bytes) = hex2 b ++ hexText bytes := rfl
    rw [hcons, hexLoop_hex2 b _ (by omega), ih (by omega)]
    refine congrArg Except.ok (Vector.ext fun k hk => ?_)
    simp only [Vector.getElem_ofFn, Vector.getElem_set, Fin.getElem_fin]
    rcases Nat.lt_trichotomy k i with hlt | rfl | hgt
    · rw [if_pos (by omega), if_pos hlt, if_neg (by omega)]
    · rw [if_pos (by omega), if_pos rfl, if_neg (by omega), Nat.sub_self]
      rfl
    · rw [if_neg (by omega), if_neg (by omega), if_neg (by omega), show k - i = k - (i + 1) + 1 by omega, List.getD_cons_succ]

/-- A text that begins like that of some bytes is decoded as they are, as far as both go. -/
theorem hexDecode_hexText {n : Nat} {text a b : Str} {bytes : List Octet} (h : text ++ a = hexText bytes ++ b) {k : Nat}
    (hk : k ≤ bytes.length) (hl : 2 * k ≤ text.length) (hn : k ≤ n) (out : Vector Octet n) :
    hexDecode text (2 * k) out = .ok (some (Vector.ofFn fun i => (bytes.take k).getD i out[i])) := by
  have htake : text.take (2 * k) = hexText (bytes.take k) := by
    rw [← take_hexText bytes hk, ← @List.take_append_of_le_length _ text a _ hl, h,
      List.take_append_of_le_length (by rw [length_hexText]; omega)]
  have hlen : (bytes.take k).length = k := by
    rw [List.length_take]
    omega
  unfold hexDecode
  rw [if_neg (by omega), htake, hexLoop_hexText (by omega)]
  simp only [Nat.not_lt_zero, if_false, Nat.sub_zero]
  rfl

/-! ## Frames and what else a hub sends -/

theorem length_frame_le (f : PlmFrame) : f.bytes.length ≤ 25 := by
  have hmax := plmCmdlen_le_max (f.bytes.getD 1 0)
  rw [f.length_eq]
  unfold frameLen
  split
  · decide
  · exact hmax

/-- The first two bytes of a frame. -/
theorem decodes_frame (f : PlmFrame) {text a b : Str} (h : text ++ a = hexText f.bytes ++ b) (h4 : 4 ≤ text.length)
    (old : Vector Octet 32) : ∃ cur, Decodes old text cur ∧ cur[0] = plmStart ∧ cur[1] = f.bytes.getD 1 0 := by
  have hd := hexDecode_hexText h f.two_le_length h4 (by decide) old
  obtain ⟨c, r, hf, -⟩ := f.bytes_eq
  refine ⟨_, ⟨h4, hd⟩, ?_, ?_⟩
  · rw [Vector.getElem_ofFn, hf]
    rfl
  · rw [Vector.getElem_ofFn, hf]
    rfl

/-- The entry for a frame. -/
theorem hexDecode_frame (f : PlmFrame) {text a b : Str} (h : text ++ a = hexText f.bytes ++ b)
    (hl : 2 * f.bytes.length ≤ text.length) {cmd : Frame}
    (hd : hexDecode text (2 * f.bytes.length) (Vector.replicate 30 0) = .ok (some cmd)) : cmd = frameOf f.bytes := by
  have hmax := length_frame_le f
  have he := hexDecode_hexText h (Nat.le_refl _) hl (by omega : f.bytes.length ≤ 30) (Vector.replicate 30 0)
  rw [← Option.some.inj (Except.ok.inj (he.symm.trans hd))]
  unfold frameOf
  refine Vector.ext fun i hi => ?_
  rw [Vector.getElem_ofFn, Vector.getElem_ofFn, List.take_length, Fin.getElem_fin, Vector.getElem_replicate]

/-- The flags of an echo, and with them its length. -/
theorem decodes_echo (f : PlmFrame) (hs : f.bytes.getD 1 0 = plmSend) {text a b : Str} (h : text ++ a = hexText f.bytes ++ b)
    (hl : plmCmdlen plmSend * 2 ≤ text.length) (cur : Vector Octet 32) :
    ∃ all, hexDecode text (plmCmdlen plmSend * 2) cur = .ok (some all) ∧ echoLen all = 2 * f.bytes.length := by
  have hnine : plmCmdlen plmSend * 2 = 2 * 9 := by decide
  have hge : 9 ≤ f.bytes.length := by
    have hle := f.plmCmdlen_le
    rw [hs] at hle
    omega
  have hd := hexDecode_hexText h hge (by omega) (by decide : 9 ≤ 32) cur
  refine ⟨_, hd, ?_⟩
  have hlen := f.length_eq
  unfold frameLen at hlen
  unfold echoLen
  rw [hlen, hs, Vector.getElem_ofFn]
  dsimp only
  rw [List.getD_eq_getElem _ _ (by rw [List.length_take]; omega), List.getElem_take, List.getD_eq_getElem _ _ (by omega)]
  split
  · rename_i hx
    rw [if_pos ⟨rfl, hx⟩, Nat.mul_comm]
  · rename_i hx
    rw [if_neg (fun hn => hx hn.2), Nat.mul_comm]

/-- A text and a frame that begin the same stream: the frame is taken when all of it is there. -/
theorem hubStep_frame (f : PlmFrame) {hub : Hub} {a b : Str} (h : hub.workbuf ++ a = hexText f.bytes ++ b)
    (h4 : 4 ≤ hub.workbuf.length) :
    if hub.workbuf.length < 2 * f.bytes.length then
      ∃ r, hubStep hub = .ok (.inr r) ∧ r.workbuf = hub.workbuf ∧ r.workfifo = hub.workfifo
    else ∃ hd pd, hubStep hub = .ok (.inl ⟨hub.workbuf.drop (2 * f.bytes.length), hub.workfifo ++ [frameOf f.bytes], hd, pd⟩) := by
  obtain ⟨cur, hcur, h0, h1⟩ := decodes_frame f h h4 hub.plmdata
  have hknown : plmCmdlen cur[1] ≠ 0 := by
    rw [h1]
    exact f.known
  have hlen := f.length_eq
  unfold frameLen at hlen
  rw [← h1] at hlen
  by_cases hs : cur[1] = plmSend
  · rcases Nat.lt_or_ge hub.workbuf.length (plmCmdlen plmSend * 2) with hlt | hl
    · have hle := f.plmCmdlen_le
      rw [← h1, hs] at hle
      rw [if_pos (by omega)]
      exact hubStep_short hcur h0 hknown (by rw [hs]; exact hlt)
    obtain ⟨all, hd, hecho⟩ := decodes_echo f (h1.symm.trans hs) h hl cur
    split
    · rename_i hlt
      exact hubStep_short_echo hcur h0 hs hd hl (by omega)
    · rename_i hfull
      obtain ⟨hub₁, cmd, hcmd, he⟩ := hubStep_echo hcur h0 hs hd hl (by omega)
      rw [hecho] at hcmd he
      rw [hexDecode_frame f h (by omega) hcmd] at he
      exact ⟨hub₁, all, he⟩
  · have hclen : plmCmdlen cur[1] * 2 = 2 * f.bytes.length := by
      rw [hlen, if_neg (fun hn => hs hn.1), Nat.mul_comm]
    split
    · rename_i hlt
      exact hubStep_short hcur h0 hknown (by omega)
    · rename_i hfull
      obtain ⟨hub₁, cmd, hcmd, he⟩ := hubStep_command hcur h0 hknown hs (by omega)
      rw [hclen] at hcmd he
      rw [hexDecode_frame f h (by omega) hcmd] at he
      exact ⟨hub₁, cur, he⟩

/-- A zero is passed, whatever stands behind it. -/
theorem hubStep_zero {hub : Hub} {rest : Str} (h : hub.workbuf = hexText [0] ++ rest) (h4 : 4 ≤ hub.workbuf.length) :
    ∃ hd pd, hubStep hub = .ok (.inl ⟨rest, hub.workfifo, hd, pd⟩) := by
  obtain ⟨cur, hcur⟩ := exists_decodes h4 hub.plmdata
  have h0 : cur[0] = 0 := by
    obtain ⟨-, hd⟩ := hcur
    have htwo : (hex2 0 ++ rest).take 4 = hex2 0 ++ rest.take 2 := rfl
    have htext : hexText [0] = hex2 0 := rfl
    unfold hexDecode at hd
    rw [if_neg (by decide), h, htext, htwo, hexLoop_hex2 0 _ (by decide)] at hd
    cases hl : hexLoop (rest.take 2) 1 (hub.plmdata.set 0 0) with
    | error e =>
      rw [hl] at hd
      cases hd
    | ok out =>
      rw [hl] at hd
      cases hd
      rw [getElem_hexLoop hl (by decide) (by decide), Vector.getElem_set_self]
  obtain ⟨hd, he⟩ := hubStep_eq hcur
  rw [he, hubDecoded_zero h0]
  refine ⟨hd, cur, ?_⟩
  unfold Hub.drain
  rw [h]
  rfl

/-- A negative answer takes four characters behind it along, and the callback returns. -/
theorem hubStep_nak {hub : Hub} {rest : Str} (h : hub.workbuf = hexText [plmStart, plmcmdNak] ++ rest) :
    ∃ r, hubStep hub = .ok (.inr r) ∧ r.workbuf = rest.drop 4 ∧ r.workfifo = hub.workfifo := by
  have hlen : 4 ≤ hub.workbuf.length := by
    rw [h, List.length_append, length_hexText]
    exact Nat.le_add_right 4 _
  have htext : hub.workbuf ++ [] = hexText [plmStart, plmcmdNak] ++ rest := by rw [List.append_nil, h]
  have hcur := hexDecode_hexText htext (k := 2) (Nat.le_refl 2) hlen (by decide) hub.plmdata
  obtain ⟨hd, he⟩ := hubStep_eq ⟨hlen, hcur⟩
  rw [he, hubDecoded_nak (by rw [Vector.getElem_ofFn]; rfl) (by rw [Vector.getElem_ofFn]; rfl)]
  refine ⟨_, rfl, ?_, rfl⟩
  unfold Hub.drain
  rw [h]
  rfl

/-- What the text from a hub is made of. -/
inductive HubItem
  | frame (f : PlmFrame)
  | nak
  | zero

def HubItem.bytes : HubItem → List Octet
  | .frame f => f.bytes
  | .nak => [plmStart, plmcmdNak]
  | .zero => [0]

/-- The entries that an item makes. -/
def HubItem.entries : HubItem → List Frame
  | .frame f => [frameOf f.bytes]
  | .nak => []
  | .zero => []

/-- The text of some items. -/
def hubText (items : List HubItem) : Str := hexText (items.flatMap HubItem.bytes)

/-- The entries that their frames make. -/
def hubEntries (items : List HubItem) : List Frame := items.flatMap HubItem.entries

/-- The text of the beginning of a frame. -/
structure PartialFrame where
  frame : PlmFrame
  text : Str
  begins : text <+: hexText frame.bytes
  short : text.length < 2 * frame.bytes.length

/-- No frame stands behind the first negative answer, and two bytes at least between it and the beginning of a frame. -/
def NakLast (items : List HubItem) (tail : PartialFrame) : Prop :=
  ∀ pre post, items = pre ++ .nak :: post → .nak ∉ pre →
    (∀ f, .frame f ∉ post) ∧ (tail.text = [] ∨ 2 ≤ (post.flatMap HubItem.bytes).length)

theorem hubText_cons (i : HubItem) (items : List HubItem) : hubText (i :: items) = hexText i.bytes ++ hubText items := by
  unfold hubText
  rw [List.flatMap_cons, hexText_append]

theorem hubText_append (items items' : List HubItem) : hubText (items ++ items') = hubText items ++ hubText items' := by
  unfold hubText
  rw [List.flatMap_append, hexText_append]

theorem hubEntries_cons (i : HubItem) (items : List HubItem) : hubEntries (i :: items) = i.entries ++ hubEntries items :=
  List.flatMap_cons

theorem hubEntries_append (items items' : List HubItem) : hubEntries (items ++ items') = hubEntries items ++ hubEntries items' :=
  List.flatMap_append

theorem hubEntries_eq_nil_iff {items : List HubItem} : hubEntries items = [] ↔ ∀ f, .frame f ∉ items := by
  unfold hubEntries
  rw [List.flatMap_eq_nil_iff]
  constructor
  · intro h f hf
    exact absurd (h _ hf) (List.cons_ne_nil _ _)
  · intro h i hi
    cases i with
    | frame f => exact absurd hi (h f)
    | nak => rfl
    | zero => rfl

/-- A frame has four characters at least. -/
theorem four_le_of_entries {items : List HubItem} (h : hubEntries items ≠ []) : 4 ≤ (hubText items).length := by
  induction items with
  | nil => exact absurd rfl h
  | cons i items ih =>
    rw [hubText_cons, List.length_append, length_hexText]
    cases i with
    | frame f =>
      have htwo : 2 ≤ (HubItem.frame f).bytes.length := f.two_le_length
      omega
    | nak => exact Nat.le_trans (ih h) (Nat.le_add_left _ _)
    | zero => exact Nat.le_trans (ih h) (Nat.le_add_left _ _)

/-! ## Calls -/

theorem hubStep_few {hub : Hub} (h : hub.workbuf.length < 4) : hubStep hub = .ok (.inr hub) := by
  unfold hubStep
  rw [if_pos h]

/-- An item that is not a negative answer is passed. -/
theorem hubStep_item {i : HubItem} (hi : i ≠ .nak) {hub : Hub} {rest : Str} (h : hub.workbuf = hexText i.bytes ++ rest)
    (h4 : 4 ≤ hub.workbuf.length) :
    ∃ hub', hubStep hub = .ok (.inl hub') ∧ hub'.workbuf = rest ∧ hub'.workfifo = hub.workfifo ++ i.entries := by
  cases i with
  | frame f =>
    have hlen : (hexText f.bytes).length = 2 * f.bytes.length := length_hexText f.bytes
    have htext : hub.workbuf ++ [] = hexText f.bytes ++ rest := by rw [List.append_nil, h]; rfl
    have hstep := hubStep_frame f htext h4
    have hge : 2 * f.bytes.length ≤ hub.workbuf.length := by
      rw [← hlen, ← List.append_nil hub.workbuf, htext, List.length_append]
      omega
    rw [if_neg (by omega)] at hstep
    obtain ⟨hd, pd, he⟩ := hstep
    refine ⟨_, he, ?_, rfl⟩
    rw [← List.append_nil hub.workbuf, htext, ← hlen]
    exact List.drop_left
  | nak => exact absurd rfl hi
  | zero =>
    obtain ⟨hd, pd, he⟩ := hubStep_zero h h4
    exact ⟨_, he, rfl, (List.append_nil _).symm⟩

/-- Items without a negative answer are passed, until less than four characters are left. -/
theorem halts_of_rest {items : List HubItem} (hn : .nak ∉ items) {rest : Str} {hub : Hub}
    (h : hub.workbuf = hubText items ++ rest) :
    ∃ hub' left, hub'.workbuf = hubText left ++ rest ∧ hub'.workfifo ++ hubEntries left = hub.workfifo ++ hubEntries items ∧
      (left = [] ∨ hub'.workbuf.length < 4) ∧ ∀ r, Halts hubStep hub' r → Halts hubStep hub r := by
  induction items generalizing hub with
  | nil => exact ⟨hub, [], h, rfl, Or.inl rfl, fun r hr => hr⟩
  | cons i items ih =>
    rcases Nat.lt_or_ge hub.workbuf.length 4 with hlt | h4
    · exact ⟨hub, i :: items, h, rfl, Or.inr hlt, fun r hr => hr⟩
    · rw [List.mem_cons, not_or] at hn
      rw [hubText_cons, List.append_assoc] at h
      obtain ⟨hub₁, he, htext, hfifo⟩ := hubStep_item (Ne.symm hn.1) h h4
      obtain ⟨hub₂, left, hrest, hentries, hleft, hhalts⟩ := ih hn.2 htext
      refine ⟨hub₂, left, hrest, ?_, hleft, fun r hr => .step he (hhalts r hr)⟩
      rw [hentries, hfifo, hubEntries_cons, List.append_assoc]

/-- Without a negative answer all frames are read, and the beginning of another one stays. -/
theorem halts_of_frames {items : List HubItem} (hn : .nak ∉ items) {tail : PartialFrame} {hub : Hub}
    (h : hub.workbuf = hubText items ++ tail.text) :
    ∃ r, Halts hubStep hub r ∧ r.workfifo = hub.workfifo ++ hubEntries items ∧ tail.text <:+ r.workbuf := by
  obtain ⟨hub', left, hrest, hentries, hleft, hhalts⟩ := halts_of_rest hn h
  rcases Nat.lt_or_ge hub'.workbuf.length 4 with hlt | h4
  · have hnone : hubEntries left = [] := by
      by_contra hne
      have hfour := four_le_of_entries hne
      rw [hrest, List.length_append] at hlt
      omega
    rw [hnone, List.append_nil] at hentries
    refine ⟨hub', hhalts hub' (.done (hubStep_few hlt)), hentries, ?_⟩
    rw [hrest]
    exact List.suffix_append _ _
  · obtain rfl : left = [] := hleft.resolve_right (by omega)
    have htail : hub'.workbuf = tail.text := hrest
    obtain ⟨a, ha⟩ := tail.begins
    have htext : hub'.workbuf ++ a = hexText tail.frame.bytes ++ [] := by rw [htail, ha, List.append_nil]
    have hstep := hubStep_frame tail.frame htext h4
    rw [if_pos (by rw [htail]; exact tail.short)] at hstep
    obtain ⟨r, he, hbuf, hfifo⟩ := hstep
    refine ⟨r, hhalts r (.done he), ?_, ?_⟩
    · rw [hfifo, ← hentries]
      exact (List.append_nil _).symm
    · rw [hbuf, htail]

/-- At the first negative answer the callback returns, and four characters behind it are gone. -/
theorem halts_of_nak {pre post : List HubItem} (hn : .nak ∉ pre) {rest : Str} (hub : Hub)
    (h : hub.workbuf = hubText (pre ++ .nak :: post) ++ rest) :
    ∃ r, Halts hubStep hub r ∧ r.workfifo = hub.workfifo ++ hubEntries pre ∧ r.workbuf = (hubText post ++ rest).drop 4 := by
  rw [hubText_append, hubText_cons, List.append_assoc, List.append_assoc] at h
  obtain ⟨hub', left, hrest, hentries, hleft, hhalts⟩ := halts_of_rest hn h
  have h4 : 4 ≤ hub'.workbuf.length := by
    rw [hrest, List.length_append, List.length_append, length_hexText]
    exact Nat.le_add_left_of_le (Nat.le_add_right 4 _)
  obtain rfl : left = [] := hleft.resolve_right (by omega)
  obtain ⟨r, he, hbuf, hfifo⟩ := hubStep_nak hrest
  refine ⟨r, hhalts r (.done he), ?_, hbuf⟩
  rw [hfifo, ← hentries]
  exact (List.append_nil _).symm

theorem suffix_drop_iff {α : Type} {l t : List α} {n : Nat} : t <:+ (l ++ t).drop n ↔ t = [] ∨ n ≤ l.length := by
  constructor
  · intro h
    have hle := h.length_le
    rw [List.length_drop, List.length_append] at hle
    rcases t with _ | ⟨c, t⟩
    · exact Or.inl rfl
    · rw [List.length_cons] at hle
      exact Or.inr (by omega)
  · rintro (rfl | hle)
    · exact List.nil_suffix
    · rw [List.drop_append_of_le_length hle]
      exact List.suffix_append _ _

/-- Lists have one first occurrence of an element. -/
theorem eq_of_append_cons {α : Type} {a : α} {l l' r r' : List α} (h : l ++ a :: r = l' ++ a :: r') (hl : a ∉ l) (hl' : a ∉ l') :
    l = l' ∧ r = r' := by
  rcases List.append_eq_append_iff.mp h with ⟨m, rfl, hm⟩ | ⟨m, rfl, hm⟩
  · rcases m with _ | ⟨b, m⟩
    · exact ⟨(List.append_nil l).symm, (List.cons.inj hm).2⟩
    · obtain rfl := (List.cons.inj hm).1
      exact absurd (List.mem_append_right l List.mem_cons_self) hl'
  · rcases m with _ | ⟨b, m⟩
    · exact ⟨List.append_nil l', (List.cons.inj hm).2.symm⟩
    · obtain rfl := (List.cons.inj hm).1
      exact absurd (List.mem_append_right l' List.mem_cons_self) hl

theorem nakLast_append {pre : List HubItem} (hpre : .nak ∉ pre) (post : List HubItem) (tail : PartialFrame) :
    NakLast (pre ++ .nak :: post) tail ↔
      (∀ f, .frame f ∉ post) ∧ (tail.text = [] ∨ 2 ≤ (post.flatMap HubItem.bytes).length) := by
  constructor
  · intro h
    exact h pre post rfl hpre
  · intro h pre' post' he hpre'
    obtain ⟨-, rfl⟩ := eq_of_append_cons he hpre hpre'
    exact h

/-- A call returns, and reads the table where it is and writes the arrays where they are, exactly when no start is followed by a byte
of 0x80 or more; and when the text is that of frames, negative answers and zeros, it reads all frames, and leaves the beginning of
another one, exactly when there is nothing to lose behind the first negative answer. -/
theorem hubhtml_reads_iff (hub : Hub) (items : List HubItem) (tail : PartialFrame) :
    ((∃ r, Halts hubStep hub r) ↔ InRange hub.plmdata hub.workbuf) ∧
      ((∃ r, Halts hubStep { hub with workbuf := hubText items ++ tail.text } r ∧
          r.workfifo = hub.workfifo ++ hubEntries items ∧ tail.text <:+ r.workbuf) ↔ NakLast items tail) := by
  refine ⟨halts_iff_inRange hub, ?_⟩
  by_cases hnak : .nak ∈ items
  · classical
    obtain ⟨pre, post, rfl, hpre⟩ := List.eq_append_cons_of_mem hnak
    obtain ⟨r, hr, hfifo, hbuf⟩ := halts_of_nak hpre { hub with workbuf := hubText (pre ++ .nak :: post) ++ tail.text } rfl
    have hentries : hub.workfifo ++ hubEntries pre = hub.workfifo ++ hubEntries (pre ++ .nak :: post) ↔ ∀ f, .frame f ∉ post := by
      rw [hubEntries_append, hubEntries_cons, List.append_cancel_left_eq, List.self_eq_append_right]
      exact hubEntries_eq_nil_iff
    have hsuffix : tail.text <:+ (hubText post ++ tail.text).drop 4 ↔ tail.text = [] ∨ 2 ≤ (post.flatMap HubItem.bytes).length := by
      have hlen : (hubText post).length = 2 * (post.flatMap HubItem.bytes).length := length_hexText _
      rw [suffix_drop_iff, hlen]
      exact or_congr_right (by omega)
    rw [nakLast_append hpre, ← hentries, ← hsuffix, ← hbuf]
    constructor
    · rintro ⟨r', hr', hfifo', hbuf'⟩
      obtain rfl := hr.unique hr'
      exact ⟨hfifo.symm.trans hfifo', hbuf'⟩
    · rintro ⟨hsame, hleft⟩
      exact ⟨r, hr, hfifo.trans hsame, hleft⟩
  · have hlast : NakLast items tail := by
      rintro pre post rfl -
      exact absurd (List.mem_append_right pre List.mem_cons_self) hnak
    exact iff_of_true (halts_of_frames hnak rfl) hlast

/-- No frame has begun. -/
def noTail : PartialFrame where
  frame := buttonFrame
  text := []
  begins := List.nil_prefix
  short := by decide

/-- A call at the text of a start and a byte of 0x80 does not return, and one at a negative answer and a frame does not read the
frame. -/
theorem not_hubhtml_reads :
    (¬ ∃ r, Halts hubStep ⟨str "0280", [], Vector.replicate 64 0, Vector.replicate 32 0⟩ r) ∧
    ¬ ∃ r, Halts hubStep ⟨hubText [.nak, .frame buttonFrame] ++ noTail.text, [], Vector.replicate 64 0, Vector.replicate 32 0⟩ r ∧
      r.workfifo = hubEntries [.nak, .frame buttonFrame] ∧ noTail.text <:+ r.workbuf := by
  constructor
  · rw [halts_iff_inRange]
    intro h
    have htext : str "0280" ++ [] = hexText [0x02, 0x80] ++ [] := rfl
    have hcur := hexDecode_hexText htext (k := 2) (by decide) (by decide) (by decide) (Vector.replicate 32 0)
    exact absurd (h _ _ _ .refl ⟨by decide, hcur⟩ rfl) (by decide)
  · rintro ⟨r', hr', hfifo', -⟩
    have htext : hubText [.nak, .frame buttonFrame] ++ noTail.text = hubText ([] ++ .nak :: [.frame buttonFrame]) ++ noTail.text := rfl
    obtain ⟨r, hr, hfifo, -⟩ := halts_of_nak List.not_mem_nil ⟨_, [], Vector.replicate 64 0, Vector.replicate 32 0⟩ htext
    obtain rfl := hr.unique hr'
    rw [hfifo] at hfifo'
    exact absurd hfifo'.symm (List.cons_ne_nil _ _)

end Gnhast.Insteon
