import Gnhast.Theorems.Aldb
import Mathlib.Data.List.GetD

/-!
# Links that are saved and written

A table of links leaves the collector in two ways, as the lines of a file and as messages with one record each, and comes back from
both. A line has the bytes of a record in the order of the record's fields, without its address, which is that of the slot the line is
read into; a message has them in another order and with the address, from which the number of the slot is computed.
-/

namespace Gnhast.Insteon

open CStr Slots

/-! ## Bytes in a line -/

theorem hexDigit_spec {n : Nat} (h : n < 16) : isxdigit ((str "0123456789ABCDEF").getD n 0) = true ∧
    xdigitVal ((str "0123456789ABCDEF").getD n 0) = n := by
  revert n
  decide

/-- A byte that was printed is read. -/
theorem scanX_hex2 (o : Octet) {s : Str} (hs : ∀ c ∈ s.head?, isxdigit c = false) :
    scanX (hex2 o ++ s) = some (o.setWidth 32, s) := by
  have ho := o.isLt
  obtain ⟨ha, hva⟩ := hexDigit_spec (n := o.toNat / 16) (by omega)
  obtain ⟨hb, hvb⟩ := hexDigit_spec (n := o.toNat % 16) (by omega)
  unfold hex2
  rw [List.cons_append, List.cons_append, List.nil_append, scanX_two ha hb hs, hva, hvb, Nat.div_add_mod]
  simp only [Option.some.injEq, Prod.mk.injEq, and_true]
  apply BitVec.eq_of_toNat_eq
  simp

theorem sscanf_hex2 (o : Octet) {s : Str} (hs : ∀ c ∈ s.head?, isxdigit c = false) (fmt : List Directive) :
    sscanf (.x :: fmt) (hex2 o ++ s) = o.setWidth 32 :: sscanf fmt s := by
  rw [sscanf, scanX_hex2 o hs]

theorem sscanf_dot (fmt : List Directive) (s : Str) : sscanf (.char chDot :: fmt) (chDot :: s) = sscanf fmt s := by
  rw [sscanf, if_pos rfl]

/-- Only one blank stands between two bytes. -/
theorem sscanf_blank (fmt : List Directive) (o : Octet) (s : Str) :
    sscanf (.blank :: fmt) (chSpace :: (hex2 o ++ s)) = sscanf fmt (hex2 o ++ s) := by
  have ho := o.isLt
  obtain ⟨ha, -⟩ := hexDigit_spec (n := o.toNat / 16) (by omega)
  rw [sscanf, List.dropWhile_cons_of_pos (by decide)]
  unfold hex2
  rw [List.cons_append, List.dropWhile_cons_of_neg (by rw [not_isspace_of_isxdigit ha]; decide)]

theorem mem_hex2 {o : Octet} {c : Byte} (h : c ∈ hex2 o) : isxdigit c = true := by
  have ho := o.isLt
  unfold hex2 at h
  simp only [List.mem_cons, List.not_mem_nil, or_false] at h
  rcases h with rfl | rfl
  · exact (hexDigit_spec (by omega)).1
  · exact (hexDigit_spec (by omega)).1

/-! ## Lines -/

/-- The line for a record, without its line feed. -/
def aldbText (r : Aldb) : Str :=
  hex2 (getElem r.devaddr 0 addrAt0) ++ chDot :: (hex2 (getElem r.devaddr 1 addrAt1) ++ chDot :: (hex2 (getElem r.devaddr 2 addrAt2) ++ chSpace :: (hex2 r.group ++
    chSpace :: (hex2 r.ldata1 ++ chSpace :: (hex2 r.ldata2 ++ chSpace :: (hex2 r.ldata3 ++ chSpace :: (hex2 r.lflags ++ [])))))))

theorem aldbLine_eq (r : Aldb) : aldbLine r = aldbText r ++ [chLf] := by
  simp [aldbLine, aldbText, addrToString]

theorem mem_aldbText {r : Aldb} {c : Byte} (h : c ∈ aldbText r) : isxdigit c = true ∨ c = chDot ∨ c = chSpace := by
  unfold aldbText at h
  simp only [List.mem_append, List.mem_cons, List.not_mem_nil, or_false] at h
  have hx : ∀ {o : Octet}, c ∈ hex2 o → isxdigit c = true ∨ c = chDot ∨ c = chSpace := fun h => Or.inl (mem_hex2 h)
  rcases h with h | h | h | h | h | h | h | h | h | h | h | h | h | h | h <;> first | exact hx h | simp [h]

theorem chLf_notMem_aldbText (r : Aldb) : chLf ∉ aldbText r := by
  intro h
  rcases mem_aldbText h with h | h | h <;> exact absurd h (by decide)

theorem cstr_aldbText (r : Aldb) : cstr (aldbText r) = aldbText r := by
  refine List.takeWhile_eq_self_iff.mpr fun c hc => ?_
  rw [bne_iff_ne]
  rintro rfl
  rcases mem_aldbText hc with h | h | h <;> exact absurd h (by decide)

/-- The lines of a file are those of the records. -/
theorem fgetlnLines_dumpAldb (dd : InsteonDevdata) :
    fgetlnLines (dumpAldb dd) = (dd.aldb.toList.take dd.aldblen).map aldbText := by
  have hcut : Lines.cut chLf (dumpAldb dd) = ((dd.aldb.toList.take dd.aldblen).map aldbText, []) := by
    have hlf : ∀ l ∈ (dd.aldb.toList.take dd.aldblen).map aldbText, chLf ∉ l := by
      intro l hl
      obtain ⟨r, -, rfl⟩ := List.mem_map.mp hl
      exact chLf_notMem_aldbText r
    have hline : aldbLine = (fun l => l ++ [chLf]) ∘ aldbText := funext aldbLine_eq
    rw [← Lines.cut_flatten hlf, List.map_map, dumpAldb, hline]
  unfold fgetlnLines
  rw [hcut]
  rfl

/-- All bytes of a line are read. -/
theorem sscanf_aldbText (r : Aldb) : sscanf aldbFormat (aldbText r) =
    [(getElem r.devaddr 0 addrAt0).setWidth 32, (getElem r.devaddr 1 addrAt1).setWidth 32, (getElem r.devaddr 2 addrAt2).setWidth 32, r.group.setWidth 32, r.ldata1.setWidth 32,
      r.ldata2.setWidth 32, r.ldata3.setWidth 32, r.lflags.setWidth 32] := by
  have hdot : ∀ {s : Str}, ∀ c ∈ (chDot :: s).head?, isxdigit c = false := by
    rintro s c ⟨⟩
    rfl
  have hspace : ∀ {s : Str}, ∀ c ∈ (chSpace :: s).head?, isxdigit c = false := by
    rintro s c ⟨⟩
    rfl
  unfold aldbFormat aldbText
  rw [sscanf_hex2 _ hdot, sscanf_dot, sscanf_hex2 _ hdot, sscanf_dot, sscanf_hex2 _ hspace, sscanf_blank, sscanf_hex2 _ hspace,
    sscanf_blank, sscanf_hex2 _ hspace, sscanf_blank, sscanf_hex2 _ hspace, sscanf_blank, sscanf_hex2 _ hspace, sscanf_blank,
    sscanf_hex2 _ (by simp), sscanf]

theorem threeBytes (addr : Vector Octet 3) : #v[(getElem addr 0 addrAt0), (getElem addr 1 addrAt1), (getElem addr 2 addrAt2)] = addr := by
  ext i hi
  match i, hi with
  | 0, _ => rfl
  | 1, _ => rfl
  | 2, _ => rfl

/-- A line gives back its record, but for the address. -/
theorem fileRecord_aldbText (i : Nat) (vals : Vector (BitVec 32) 8) (r : Aldb) :
    fileRecord i (scanLocals vals (aldbText r)) = { r with addr := slotAddr i } := by
  have hback : ∀ o : Octet, (o.setWidth 32).setWidth 8 = o := by
    intro o
    rw [BitVec.setWidth_setWidth_of_le _ (by decide), BitVec.setWidth_eq]
  unfold fileRecord scanLocals slotAddr
  simp only [cstr_aldbText, sscanf_aldbText, Vector.getElem_ofFn, List.getD_cons_zero, List.getD_cons_succ, hback, threeBytes,
    Nat.mul_comm i 8]

/-! ## Tables -/

/-- Lines are read into slots that follow each other. -/
theorem parseLines_aldbText (rs : List Aldb) {i : Nat} (h : i + rs.length ≤ aldbMaxsize) (vals : Vector (BitVec 32) 8)
    (dd : InsteonDevdata) : ∃ dd', parseLines (rs.map aldbText) i vals dd = .ok dd' ∧ dd'.aldblen = dd.aldblen ∧
      ∀ j (hj : j < aldbMaxsize), dd'.aldb[j] =
        if hr : i ≤ j ∧ j - i < rs.length then { rs[j - i] with addr := slotAddr j } else dd.aldb[j] := by
  induction rs generalizing i vals dd with
  | nil => exact ⟨dd, rfl, rfl, fun j hj => by simp⟩
  | cons r rs ih =>
    rw [List.length_cons] at h
    rw [List.map_cons, parseLines, dif_pos (by omega)]
    dsimp only
    rw [fileRecord_aldbText]
    obtain ⟨dd', hp, hlen, hget⟩ := ih (i := i + 1) (by omega) (scanLocals vals (aldbText r))
      { dd with aldb := dd.aldb.set i { r with addr := slotAddr i } }
    refine ⟨dd', hp, hlen, fun j hj => ?_⟩
    rw [hget j hj]
    rcases Nat.lt_trichotomy j i with hlt | rfl | hgt
    · rw [dif_neg (by omega), dif_neg (by omega)]
      exact Vector.getElem_set_ne (by omega) hj (by omega)
    · rw [dif_neg (by omega), dif_pos ⟨Nat.le_refl j, by simp⟩]
      simp
    · obtain ⟨k, rfl⟩ : ∃ k, j = i + 1 + k := ⟨j - (i + 1), by omega⟩
      have hk : i + 1 + k - i = k + 1 := by omega
      have hk' : i + 1 + k - (i + 1) = k := by omega
      simp only [hk, hk', List.length_cons, List.getElem_cons_succ]
      by_cases hin : k < rs.length
      · rw [dif_pos ⟨by omega, hin⟩, dif_pos ⟨by omega, by omega⟩]
      · rw [dif_neg (by omega), dif_neg (by omega)]
        exact Vector.getElem_set_ne (by omega) hj (by omega)

/-- The first records have the addresses of their slots. -/
def Contiguous (dd : InsteonDevdata) : Prop :=
  dd.aldblen ≤ aldbMaxsize ∧ ∀ i (h : i < aldbMaxsize), i < dd.aldblen → dd.aldb[i].addr = slotAddr i

/-- The records of a table that was saved are restored into any other. -/
theorem parseAldbfile_dumpAldb {dd : InsteonDevdata} (h : Contiguous dd) (junk : Vector (BitVec 32) 8) (dd₀ : InsteonDevdata) :
    ∃ dd', parseAldbfile junk (dumpAldb dd) dd₀ = .ok (some dd') ∧ dd'.aldblen = dd.aldblen ∧
      ∀ i (h : i < aldbMaxsize), i < dd.aldblen → dd'.aldb[i] = dd.aldb[i] := by
  obtain ⟨hlen, haddr⟩ := h
  have hcount : (dd.aldb.toList.take dd.aldblen).length = dd.aldblen := by
    rw [List.length_take, Vector.length_toList]
    omega
  obtain ⟨dd', hp, hl, hget⟩ := parseLines_aldbText (dd.aldb.toList.take dd.aldblen) (i := 0) (by omega) junk
    { dd₀ with aldblen := dd.aldblen }
  refine ⟨dd', ?_, hl, fun i hi hlt => ?_⟩
  · unfold parseAldbfile
    rw [fgetlnLines_dumpAldb]
    dsimp only
    rw [List.length_map, hcount, if_neg (by omega), hp]
    rfl
  · rw [hget i hi, dif_pos ⟨Nat.zero_le i, by omega⟩]
    simp only [Nat.sub_zero, List.getElem_take, Vector.getElem_toList, ← haddr i hi hlt]

/-! ## Messages -/

/-- The answer to a command repeats its data; the last byte, a checksum, may be another. -/
def Echoes (cmd : CmdQ) (data : Vector Octet 14) : Prop := ∀ j (h : j < 13), data[j] = cmd.cmd[8 + j]

/-- The high and the low byte of an address. -/
theorem addr_halves (a : BitVec 16) :
    (a.setWidth 8).setWidth 16 ||| ((a >>> 8).setWidth 8).setWidth 16 <<< 8 = a := by
  ext i hi
  rcases Nat.lt_or_ge i 8 with h | h
  · simp [h, BitVec.getLsbD_eq_getElem hi]
  · simp [show ¬ i < 8 by omega, show i - 8 < 8 by omega, show 8 + (i - 8) = i by omega, BitVec.getLsbD_eq_getElem hi]

/-- The data that is written for a record is that record, when it comes back. -/
theorem aldbRecord_echo {r : Aldb} {data : Vector Octet 14} (h : ∀ j (h : j < 13), data[j] = (aldbData r)[j]) :
    aldbRecord data = r := by
  unfold aldbRecord
  rw [h 2 (by decide), h 3 (by decide), h 5 (by decide), h 6 (by decide), h 7 (by decide), h 8 (by decide), h 9 (by decide),
    h 10 (by decide), h 11 (by decide), h 12 (by decide)]
  simp [aldbData, addr_halves, threeBytes]

/-- The data of a command stands behind its header. -/
theorem getElem_cmdBytes_data {header : List Octet} (hh : header.length = 8) (data : Vector Octet 14) (last : Octet) {j : Nat}
    (hj : j < 13) : (cmdBytes (header ++ data.toList.take 13 ++ [last]))[8 + j] = data[j] := by
  have hlen : (data.toList.take 13).length = 13 := by
    rw [List.length_take, Vector.length_toList]
    rfl
  unfold cmdBytes
  rw [Vector.getElem_ofFn]
  dsimp only
  rw [List.getD_append _ _ _ _ (by rw [List.length_append, hh, hlen]; omega),
    List.getD_append_right _ _ _ _ (by omega), hh, Nat.add_sub_cancel_left, List.getD_eq_getElem _ _ (by omega),
    List.getElem_take, Vector.getElem_toList]

/-- A record is written with the address of its slot. -/
theorem plmWriteAldbRecord_eq (dev : PlmDevice) {recno : Nat} (h : recno < aldbMaxsize) (q : Plm) :
    ∃ dev' q' cmd, plmWriteAldbRecord dev recno q = .ok (dev', q') ∧ q'.cmdfifo = q.cmdfifo ++ [cmd] ∧
      dev'.dd.aldb[recno] = { dev.dd.aldb[recno] with addr := slotAddr recno } ∧
      ∀ j (hj : j < 13), cmd.cmd[8 + j] = (aldbData dev'.dd.aldb[recno])[j] := by
  have hget : dev.dd.aldb.get ⟨recno, h⟩ = dev.dd.aldb[recno] := rfl
  unfold plmWriteAldbRecord
  rw [if_neg (by omega), dif_pos h, hget]
  refine ⟨_, _, _, rfl, rfl, ?_, fun j hj => ?_⟩
  · simp [slotAddr]
  · rw [getElem_cmdBytes_data rfl _ _ hj]
    simp

/-- A table that was saved is restored into any other, and a record that was written is put, when the device repeats it, into the slot
with its number. -/
theorem aldb_restored :
    (∀ (dd dd₀ : InsteonDevdata) (junk : Vector (BitVec 32) 8), Contiguous dd →
      ∃ dd', parseAldbfile junk (dumpAldb dd) dd₀ = .ok (some dd') ∧ dd'.aldblen = dd.aldblen ∧
        ∀ i (h : i < aldbMaxsize), i < dd.aldblen → dd'.aldb[i] = dd.aldb[i]) ∧
    ∀ (dev : PlmDevice) (recno : Nat) (h : recno < aldbMaxsize) (q : Plm), ∃ dev' q' cmd,
      plmWriteAldbRecord dev recno q = .ok (dev', q') ∧ q'.cmdfifo = q.cmdfifo ++ [cmd] ∧
        dev'.dd.aldb[recno] = { dev.dd.aldb[recno] with addr := slotAddr recno } ∧
        ∀ (d : DevId) (coll : Coll) (data : Vector Octet 14), Echoes cmd data → ∃ coll' last,
          plmHandleAldb d data coll = .ok (coll', last) ∧
            (coll'.dev d).dd.aldb = (coll.dev d).dd.aldb.set recno dev'.dd.aldb[recno] := by
  refine ⟨fun dd dd₀ junk hc => parseAldbfile_dumpAldb hc junk dd₀, fun dev recno h q => ?_⟩
  obtain ⟨dev', q', cmd, hw, hq, hrec, hbytes⟩ := plmWriteAldbRecord_eq dev h q
  refine ⟨dev', q', cmd, hw, hq, hrec, fun d coll data hecho => ?_⟩
  have hdata : aldbRecord data = dev'.dd.aldb[recno] := aldbRecord_echo fun j hj => (hecho j hj).trans (hbytes j hj)
  have haddr : (aldbRecord data).addr = slotAddr recno := by rw [hdata, hrec]
  have hnat := toNat_slotAddr h
  obtain ⟨hout, -⟩ | ⟨-, -, n, hn, hno, coll', hh, hdd, -⟩ := plmHandleAldb_cases d data coll
  · rw [haddr, hnat] at hout
    unfold aldbMaxsize at h
    omega
  · obtain rfl : recno = n := by
      rw [haddr, recnoOf_slotAddr h] at hno
      exact_mod_cast hno
    exact ⟨coll', _, hh, by rw [hdd, hdata]; rfl⟩

/-- A table of two records. -/
def savedLinks : InsteonDevdata :=
  { daddr := Vector.replicate 3 0x1A, hop_ok := hopUnset, aldblen := 2
    aldb := ((Vector.replicate aldbMaxsize {}).set 0 (aldbRecord (linkMessage 0x0FFF)) aldbAt0).set 1
      (aldbRecord (linkMessage 0x0FF7)) aldbAt1 }

theorem contiguous_savedLinks : Contiguous savedLinks := by
  refine ⟨by decide, fun i h hi => ?_⟩
  have h2 : i < 2 := hi
  obtain rfl | rfl : i = 0 ∨ i = 1 := by omega
  · rfl
  · rfl

/-- They come back from a file, and the second one from the message that repeats what was written. -/
theorem aldb_restored_links :
    (∃ dd', parseAldbfile (Vector.replicate 8 0) (dumpAldb savedLinks) { daddr := #v[0, 0, 0] } = .ok (some dd') ∧
      dd'.aldblen = savedLinks.aldblen ∧ ∀ i (h : i < aldbMaxsize), i < savedLinks.aldblen → dd'.aldb[i] = savedLinks.aldb[i]) ∧
    ∃ dev' q' cmd, plmWriteAldbRecord { emptyColl.dev 0 with dd := savedLinks } 1 {} = .ok (dev', q') ∧
      q'.cmdfifo = ({} : Plm).cmdfifo ++ [cmd] ∧ dev'.dd.aldb[1] = { savedLinks.aldb[1] with addr := slotAddr 1 } ∧
      ∃ coll' last, plmHandleAldb 0 (Vector.ofFn fun j => cmd.cmd[8 + j.val]) emptyColl = .ok (coll', last) ∧
        (coll'.dev 0).dd.aldb = (emptyColl.dev 0).dd.aldb.set 1 dev'.dd.aldb[1] := by
  obtain ⟨dev', q', cmd, hw, hq, hrec, hecho⟩ := aldb_restored.2 { emptyColl.dev 0 with dd := savedLinks } 1 (by decide) {}
  exact ⟨aldb_restored.1 savedLinks { daddr := #v[0, 0, 0] } _ contiguous_savedLinks, dev', q', cmd, hw, hq, hrec,
    hecho 0 emptyColl _ fun j hj => Vector.getElem_ofFn (by omega)⟩

end Gnhast.Insteon
