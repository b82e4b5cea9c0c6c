import Gnhast.Aldb
import Gnhast.Lib.Runs

/-!
# The table of links

A record is put into the slot whose number is computed from its address, and then the length of the table is looked for. Every
address leads into the table or is rejected, but an address between those of two slots, or a little above that of the first, leads into
a slot too; and the length is not assigned when the last free slot is filled. So the table is right along exactly the runs in which
the addresses are those of slots and one slot stays free.
-/

namespace Gnhast.Insteon

open CStr Slots Runs

/-! ## Addresses and slots -/

/-- The address of a slot. -/
def slotAddr (n : Nat) : BitVec 16 := 0x0FFF - BitVec.ofNat 16 (8 * n)

theorem toNat_slotAddr {n : Nat} (h : n < aldbMaxsize) : (slotAddr n).toNat = 0x0FFF - 8 * n := by
  unfold aldbMaxsize at h
  unfold slotAddr
  bv_omega

/-- The addresses below those of the table. -/
theorem recnoOf_below {addr : BitVec 16} (h : addr.toNat < 0x0E00) : (aldbMaxsize : Int) ≤ recnoOf addr := by
  unfold recnoOf aldbMaxsize
  rw [Int.tdiv_eq_ediv_of_nonneg (by omega)]
  omega

/-- The addresses above it, from the eighth on. -/
theorem recnoOf_above {addr : BitVec 16} (h : 0x1007 ≤ addr.toNat) : recnoOf addr < 0 := by
  have he : (0x0FFF - (addr.toNat : Int)) = -((addr.toNat : Int) - 0x0FFF) := by omega
  unfold recnoOf
  rw [he, Int.neg_tdiv, Int.tdiv_eq_ediv_of_nonneg (by omega)]
  omega

/-- The others have a slot. -/
theorem recnoOf_inside {addr : BitVec 16} (h : 0x0E00 ≤ addr.toNat) (h' : addr.toNat < 0x1007) :
    ∃ n < aldbMaxsize, recnoOf addr = n ∧ n = (0x0FFF - addr.toNat) / 8 := by
  unfold aldbMaxsize
  refine ⟨(0x0FFF - addr.toNat) / 8, by omega, ?_, rfl⟩
  unfold recnoOf
  rcases Nat.lt_or_ge 0x0FFF addr.toNat with hlt | hge
  · have he : (0x0FFF - (addr.toNat : Int)) = -((addr.toNat : Int) - 0x0FFF) := by omega
    rw [he, Int.neg_tdiv, Int.tdiv_eq_ediv_of_nonneg (by omega)]
    omega
  · rw [Int.tdiv_eq_ediv_of_nonneg (by omega)]
    omega

/-- The slot of an address of a slot. -/
theorem recnoOf_slotAddr {n : Nat} (h : n < aldbMaxsize) : recnoOf (slotAddr n) = n := by
  have hn := toNat_slotAddr h
  unfold aldbMaxsize at h
  obtain ⟨m, -, hm, he⟩ : ∃ m < aldbMaxsize, recnoOf (slotAddr n) = m ∧ m = (0x0FFF - (slotAddr n).toNat) / 8 :=
    recnoOf_inside (by rw [hn]; omega) (by rw [hn]; omega)
  rw [hm]
  omega

/-! ## One record -/

/-- The table and the length after a record was put into a slot. -/
def InsteonDevdata.stored (dd : InsteonDevdata) (n : Nat) (h : n < aldbMaxsize) (record : Aldb) : InsteonDevdata :=
  { dd with aldb := dd.aldb.set n record, aldblen := firstFree Aldb.used dd.aldblen (dd.aldb.set n record).toList }

theorem dev_buildGroup (d : DevId) (record : Aldb) (coll : Coll) : (buildGroup d record coll).dev = coll.dev := rfl

/-- A record is rejected, and nothing changes, or it is put into the slot its address leads to. -/
theorem plmHandleAldb_cases (d : DevId) (data : Vector Octet 14) (coll : Coll) :
    (((aldbRecord data).addr.toNat < 0x0E00 ∨ 0x1007 ≤ (aldbRecord data).addr.toNat) ∧
      ∃ last, plmHandleAldb d data coll = .ok (coll, last)) ∨
    (0x0E00 ≤ (aldbRecord data).addr.toNat ∧ (aldbRecord data).addr.toNat < 0x1007 ∧ ∃ (n : Nat) (h : n < aldbMaxsize),
      recnoOf (aldbRecord data).addr = n ∧ ∃ coll', plmHandleAldb d data coll = .ok (coll', lastRecord data) ∧
        (coll'.dev d).dd = (coll.dev d).dd.stored n h (aldbRecord data) ∧ ∀ d' ≠ d, coll'.dev d' = coll.dev d') := by
  unfold plmHandleAldb
  dsimp only
  generalize aldbRecord data = record
  rcases Nat.lt_or_ge record.addr.toNat 0x0E00 with hlo | hlo
  · rw [if_pos (recnoOf_below hlo)]
    exact Or.inl ⟨Or.inl hlo, _, rfl⟩
  rcases Nat.lt_or_ge record.addr.toNat 0x1007 with hhi | hhi
  · obtain ⟨n, hn, hrec, -⟩ := recnoOf_inside hlo hhi
    refine Or.inr ⟨hlo, hhi, n, hn, hrec, ?_⟩
    rw [hrec, if_neg (by omega), if_neg (by omega)]
    simp only [Int.toNat_natCast, dif_pos hn]
    refine ⟨_, rfl, ?_, fun d' hd' => ?_⟩
    · split <;> simp [Coll.modDev, dev_buildGroup, InsteonDevdata.stored]
    · split <;> simp [Coll.modDev, dev_buildGroup, Function.update_of_ne hd']
  · have hneg := recnoOf_above hhi
    rw [if_neg (by unfold aldbMaxsize; omega), if_pos hneg]
    exact Or.inl ⟨Or.inr hhi, _, rfl⟩

/-! ## The table -/

/-- Every record has the address of its slot, and the length is the number of records in front of the first free slot. -/
structure AldbSound (dd : InsteonDevdata) : Prop where
  inPlace : ∀ n (h : n < aldbMaxsize), dd.aldb[n].used = true → dd.aldb[n].addr = slotAddr n
  length : dd.aldblen = leading Aldb.used dd.aldb.toList

/-- An address is rejected, or it is that of a slot, and another slot is free. -/
def AldbFits (dd : InsteonDevdata) (addr : BitVec 16) : Prop :=
  addr.toNat < 0x0E00 ∨ 0x1007 ≤ addr.toNat ∨ ∃ n < aldbMaxsize, addr = slotAddr n ∧
    ∃ (m : Nat) (h : m < aldbMaxsize), m ≠ n ∧ dd.aldb[m].used = false

theorem used_of_inside {record : Aldb} (h : 0x0E00 ≤ record.addr.toNat) : record.used = true := by
  unfold Aldb.used
  rw [bne_iff_ne]
  intro he
  rw [he] at h
  exact absurd h (by decide)

/-- A free slot is left when another one is free. -/
theorem free_stored {aldb : Vector Aldb aldbMaxsize} {n : Nat} (h : n < aldbMaxsize) {record : Aldb} (hu : record.used = true) :
    (∃ a ∈ (aldb.set n record).toList, a.used = false) ↔ ∃ (m : Nat) (hm : m < aldbMaxsize), m ≠ n ∧ aldb[m].used = false := by
  constructor
  · rintro ⟨a, ha, hf⟩
    obtain ⟨m, hm, rfl⟩ := Vector.mem_iff_getElem.mp (Vector.mem_toList_iff.mp ha)
    rw [Vector.getElem_set] at hf
    split at hf
    · rw [hu] at hf
      cases hf
    · rename_i hne
      exact ⟨m, hm, Ne.symm hne, hf⟩
  · rintro ⟨m, hm, hne, hf⟩
    refine ⟨aldb[m], Vector.mem_toList_iff.mpr (Vector.mem_iff_getElem.mpr ⟨m, hm, ?_⟩), hf⟩
    rw [Vector.getElem_set, if_neg (Ne.symm hne)]

/-- A record keeps the table right exactly when it fits. -/
theorem sound_stored_iff {dd : InsteonDevdata} (hs : AldbSound dd) (hlen : dd.aldblen < aldbMaxsize) {record : Aldb}
    (hlo : 0x0E00 ≤ record.addr.toNat) (hhi : record.addr.toNat < 0x1007) {n : Nat} (h : n < aldbMaxsize)
    (hn : recnoOf record.addr = n) : AldbSound (dd.stored n h record) ↔ AldbFits dd record.addr := by
  have hu := used_of_inside hlo
  have hlead : (dd.stored n h record).aldblen = leading Aldb.used (dd.stored n h record).aldb.toList ↔
      ∃ (m : Nat) (hm : m < aldbMaxsize), m ≠ n ∧ dd.aldb[m].used = false := by
    rw [← free_stored h hu]
    exact firstFree_eq_leading_iff (by rw [Vector.length_toList]; exact hlen)
  constructor
  · intro hs'
    have hp := hs'.inPlace n h
    simp only [InsteonDevdata.stored, Vector.getElem_set_self] at hp
    exact Or.inr (Or.inr ⟨n, h, hp hu, hlead.mp hs'.length⟩)
  · rintro (hf | hf | ⟨n', h', he, hf⟩)
    · omega
    · omega
    · obtain rfl : n' = n := by
        rw [he, recnoOf_slotAddr h'] at hn
        exact_mod_cast hn
      refine ⟨fun m hm hused => ?_, hlead.mpr hf⟩
      simp only [InsteonDevdata.stored, Vector.getElem_set] at hused ⊢
      split
      · rename_i heq
        rw [← heq]
        exact he
      · rename_i hne
        rw [if_neg hne] at hused
        exact hs.inPlace m hm hused

/-! ## Sequences of records -/

/-- One record after the other. -/
def aldbStep (d : DevId) (coll : Coll) (data : Vector Octet 14) : Option Coll :=
  (plmHandleAldb d data coll).toOption.map Prod.fst

/-- No record is written outside the table. -/
theorem exists_aldbStep (d : DevId) (coll : Coll) (data : Vector Octet 14) : ∃ coll', aldbStep d coll data = some coll' := by
  unfold aldbStep
  obtain ⟨-, last, h⟩ | ⟨-, -, n, hn, -, coll', h, -⟩ := plmHandleAldb_cases d data coll
  · exact ⟨coll, by rw [h]; rfl⟩
  · exact ⟨coll', by rw [h]; rfl⟩

theorem aldblen_step {d : DevId} {coll coll' : Coll} {data : Vector Octet 14} (hlen : (coll.dev d).dd.aldblen < aldbMaxsize)
    (hs : aldbStep d coll data = some coll') : (coll'.dev d).dd.aldblen < aldbMaxsize := by
  unfold aldbStep at hs
  obtain ⟨-, last, h⟩ | ⟨-, -, n, hn, -, coll₁, h, hdd, -⟩ := plmHandleAldb_cases d data coll
  · rw [h] at hs
    cases hs
    exact hlen
  · rw [h] at hs
    cases hs
    rw [hdd]
    have hold : (coll.dev d).dd.aldblen < ((coll.dev d).dd.aldb.set n (aldbRecord data)).toList.length := by
      rw [Vector.length_toList]
      exact hlen
    have hlt := @firstFree_lt _ Aldb.used _ _ hold
    rwa [Vector.length_toList] at hlt

theorem sound_step_iff {d : DevId} {coll coll' : Coll} {data : Vector Octet 14} (hlen : (coll.dev d).dd.aldblen < aldbMaxsize)
    (hsound : AldbSound (coll.dev d).dd) (hs : aldbStep d coll data = some coll') :
    AldbSound (coll'.dev d).dd ↔ AldbFits (coll.dev d).dd (aldbRecord data).addr := by
  unfold aldbStep at hs
  obtain ⟨hout, last, h⟩ | ⟨hlo, hhi, n, hn, hrec, coll₁, h, hdd, -⟩ := plmHandleAldb_cases d data coll
  · rw [h] at hs
    cases hs
    exact iff_of_true hsound (hout.imp_right Or.inl)
  · rw [h] at hs
    cases hs
    rw [hdd]
    exact sound_stored_iff hsound hlen hlo hhi hn hrec

/-- A device that no record has come for. -/
def EmptyAldb (dd : InsteonDevdata) : Prop := dd.aldb = Vector.replicate aldbMaxsize {} ∧ dd.aldblen = 0

theorem sound_empty {dd : InsteonDevdata} (h : EmptyAldb dd) : AldbSound dd := by
  obtain ⟨ha, hl⟩ := h
  refine ⟨fun n hn hu => ?_, by rw [ha, hl]; rfl⟩
  simp only [ha, Vector.getElem_replicate] at hu
  cases hu

/-- All records are handled without a write outside the table, and the table is right after every one of them exactly along the runs
in which every record fits. -/
theorem aldb_sound_iff {d : DevId} {coll : Coll} (h : EmptyAldb (coll.dev d).dd) (datas : List (Vector Octet 14)) :
    (∃ coll', exec (aldbStep d) coll datas = some coll') ∧
      (Throughout (aldbStep d) (fun coll => AldbSound (coll.dev d).dd) coll datas ↔
        Along (aldbStep d) (fun coll data => AldbFits (coll.dev d).dd (aldbRecord data).addr) coll datas) := by
  have hlen : (coll.dev d).dd.aldblen < aldbMaxsize := by
    rw [h.2]
    decide
  constructor
  · refine exec_total (I := fun _ => True) (fun coll data _ => ?_) trivial datas
    obtain ⟨coll', hs⟩ := exists_aldbStep d coll data
    exact ⟨coll', hs, trivial⟩
  · exact throughout_iff_along (I := fun coll => (coll.dev d).dd.aldblen < aldbMaxsize)
      (fun _ _ _ hlen hs => aldblen_step hlen hs) (fun _ _ _ hlen hsound hs => sound_step_iff hlen hsound hs) hlen
      (sound_empty h) datas

/-- A collector with one device that no record has come for. -/
def emptyColl : Coll := { dev := fun _ => { dev := default, loc := str "1A.1A.1A", dd := { daddr := Vector.replicate 3 0x1A, hop_ok := hopUnset } } }

/-- The message with the record of a slot that is in use. -/
def linkMessage (addr : BitVec 16) : Vector Octet 14 :=
  #v[0, 0x01, (addr >>> 8).setWidth 8, addr.setWidth 8, 0, 0xA2, 1, 0x10, 0x20, 0x30, 0xFF, 0x1F, 0x01, 0]

/-- Two records for the first two slots. -/
theorem aldb_sound_iff_links : (∃ coll', exec (aldbStep 0) emptyColl [linkMessage 0x0FFF, linkMessage 0x0FF7] = some coll') ∧
    (Throughout (aldbStep 0) (fun coll => AldbSound (coll.dev 0).dd) emptyColl [linkMessage 0x0FFF, linkMessage 0x0FF7] ↔
      Along (aldbStep 0) (fun coll data => AldbFits (coll.dev 0).dd (aldbRecord data).addr) emptyColl
        [linkMessage 0x0FFF, linkMessage 0x0FF7]) :=
  aldb_sound_iff ⟨rfl, rfl⟩ _

theorem exec_fullTable : (exec (aldbStep 0) emptyColl ((List.range aldbMaxsize).map fun n => linkMessage (slotAddr n))).map
    (fun coll => ((coll.dev 0).dd.aldb.toList.all Aldb.used, (coll.dev 0).dd.aldblen)) = some (true, 63) := by
  decide +kernel

/-- A record whose address lies behind that of the first slot is put into it; and when all slots are in use the length is one less. -/
theorem not_aldb_sound : EmptyAldb (emptyColl.dev 0).dd ∧
    ¬ Throughout (aldbStep 0) (fun coll => AldbSound (coll.dev 0).dd) emptyColl [linkMessage 0x0FFE] ∧
    ¬ Throughout (aldbStep 0) (fun coll => AldbSound (coll.dev 0).dd) emptyColl
      ((List.range aldbMaxsize).map fun n => linkMessage (slotAddr n)) := by
  refine ⟨⟨rfl, rfl⟩, fun h => ?_, fun h => ?_⟩
  · have hs := (h.2 _ rfl).inPlace 0 (by decide) rfl
    exact absurd hs (by decide)
  · obtain ⟨coll, hex, he⟩ := Option.map_eq_some_iff.mp exec_fullTable
    obtain ⟨hall, hlen⟩ := Prod.mk.inj he
    have hs := (h.last hex).length
    rw [leading_eq_length_iff.mpr (List.all_eq_true.mp hall), Vector.length_toList, hlen] at hs
    exact absurd hs (by decide)

end Gnhast.Insteon
