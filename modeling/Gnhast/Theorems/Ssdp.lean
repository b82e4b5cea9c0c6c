import Gnhast.Ssdp

/-!
# The value of a header

`find_ssdp_field` takes the first place where the field stands for the header line, skips two bytes behind the next colon, and copies up
to the next CR. `Stands` is what a message must have there for this to be the value of the header.
-/

namespace Gnhast

open CStr Headers

/-- A text is followed by the end that `find_ssdp_field` looks for: a CR, the first; or, without a CR in all of it, an LF or nothing. -/
def EndsThere (s tail : Str) : Prop :=
  chCr ∉ s ∧ (tail.head? = some chCr ∨ chCr ∉ tail ∧ chLf ∉ s ∧ (tail.head? = some chLf ∨ tail = []))

instance (s tail : Str) : Decidable (EndsThere s tail) := inferInstanceAs (Decidable (_ ∧ _))

/-- A value stands behind the first colon and one byte more, up to the end. -/
def Stands (v p : Str) : Prop := ∃ pre c tail, p = pre ++ chColon :: c :: v ++ tail ∧ chColon ∉ pre ∧ EndsThere (pre ++ chColon :: c :: v) tail

/-- In a line of a name, a blank and a value that is ended by CR, the value stands where it is looked for. -/
theorem stands_line {n v : Str} (hn : chColon ∉ n) (hncr : chCr ∉ n) (hvcr : chCr ∉ v) (rest : Str) :
    Stands v (n ++ chColon :: chSpace :: v ++ chCr :: rest) := by
  refine ⟨n, chSpace, chCr :: rest, rfl, hn, ?_, .inl rfl⟩
  rw [List.mem_append, List.mem_cons, List.mem_cons]
  rintro (h | h | h | h)
  · exact hncr h
  · cases h
  · cases h
  · exact hvcr h

/-- The end that is found is one. -/
theorem ends_ssdpEnd (p : Str) : EndsThere (p.take (ssdpEnd p)) (p.drop (ssdpEnd p)) := by
  unfold ssdpEnd EndsThere
  cases hcr : strchr chCr p with
  | some i =>
    obtain ⟨k, v, rfl, hk, rfl⟩ := strchr_eq_some hcr
    rw [Option.some_or, Option.getD_some, List.take_left, List.drop_left]
    exact ⟨hk, .inl rfl⟩
  | none =>
    rw [strchr_eq_none_iff] at hcr
    rw [Option.none_or]
    cases hlf : strchr chLf p with
    | some i =>
      obtain ⟨k, v, rfl, hk, rfl⟩ := strchr_eq_some hlf
      rw [Option.getD_some, List.take_left, List.drop_left]
      exact ⟨fun h => hcr (List.mem_append_left _ h), .inr ⟨fun h => hcr (List.mem_append_right _ h), hk, .inl rfl⟩⟩
    | none =>
      rw [strchr_eq_none_iff] at hlf
      rw [Option.getD_none, List.take_length, List.drop_length]
      exact ⟨hcr, .inr ⟨List.not_mem_nil, hlf, .inr rfl⟩⟩

/-- There is no other. -/
theorem EndsThere.ssdpEnd_eq {s tail : Str} (h : EndsThere s tail) : ssdpEnd (s ++ tail) = s.length := by
  obtain ⟨hs, htail⟩ := h
  unfold ssdpEnd
  rcases htail with hhead | ⟨hcr, hlf, hend⟩
  · obtain ⟨t, rfl⟩ := List.head?_eq_some_iff.mp hhead
    rw [strchr_append hs]
    rfl
  · have hnone : strchr chCr (s ++ tail) = none := by
      rw [strchr_eq_none_iff, List.mem_append]
      exact not_or.mpr ⟨hs, hcr⟩
    rw [hnone, Option.none_or]
    rcases hend with hhead | rfl
    · obtain ⟨t, rfl⟩ := List.head?_eq_some_iff.mp hhead
      rw [strchr_append hlf]
      rfl
    · rw [List.append_nil, strchr_eq_none_iff.mpr hlf]
      rfl

theorem ssdpEnd_le (p : Str) : ssdpEnd p ≤ p.length := by
  unfold ssdpEnd
  cases hcr : strchr chCr p with
  | some i =>
    obtain ⟨k, v, rfl, -, rfl⟩ := strchr_eq_some hcr
    simp
  | none =>
    cases hlf : strchr chLf p with
    | some i =>
      obtain ⟨k, v, rfl, -, rfl⟩ := strchr_eq_some hlf
      simp
    | none => simp

/-- What is copied is a value exactly when that stands there. -/
theorem ssdpCopy_iff (v p : Str) : ssdpCopy p = .ok (some v) ↔ Stands v p := by
  constructor
  · intro h
    unfold ssdpCopy at h
    split at h
    · cases h
    · rename_i i hi
      obtain ⟨pre, rest, hp, hpre, rfl⟩ := strchr_eq_some hi
      dsimp only at h
      split at h
      · cases h
      · rename_i hle
        rw [Except.ok.injEq, Option.some.injEq] at h
        have hends := ends_ssdpEnd p
        have hbound := ssdpEnd_le p
        generalize ssdpEnd p = e at h hle hends hbound
        obtain ⟨n, rfl⟩ : ∃ n, e = pre.length + 2 + n := ⟨e - (pre.length + 2), by omega⟩
        cases rest with
        | nil =>
          rw [hp, List.length_append, List.length_singleton] at hbound
          omega
        | cons c r =>
          have hdrop : p.drop (pre.length + 2) = r := by
            rw [hp, ← List.drop_drop, List.drop_left]
            rfl
          have htake : p.take (pre.length + 2 + n) = pre ++ chColon :: c :: r.take n := by
            rw [hp, Nat.add_assoc, List.take_length_add_append, Nat.add_comm 2 n]
            rfl
          rw [hdrop, Nat.add_sub_cancel_left] at h
          rw [htake, ← List.drop_drop, hdrop, h] at hends
          refine ⟨pre, c, r.drop n, ?_, hpre, hends⟩
          rw [hp, ← h, List.append_assoc, List.cons_append, List.cons_append, List.take_append_drop]
  · rintro ⟨pre, c, tail, rfl, hpre, hends⟩
    have hcolon : strchr chColon (pre ++ chColon :: c :: v ++ tail) = some pre.length := by
      rw [List.append_assoc]
      exact strchr_append hpre _
    unfold ssdpCopy
    rw [hcolon, hends.ssdpEnd_eq]
    have hle : ¬(pre ++ chColon :: c :: v).length < pre.length + 2 := by simp
    have hlen : (pre ++ chColon :: c :: v).length - (pre.length + 2) = v.length := by
      simp only [List.length_append, List.length_cons]
      omega
    have hdrop : (pre ++ chColon :: c :: v ++ tail).drop (pre.length + 2) = v ++ tail := by
      rw [List.append_assoc, ← List.drop_drop, List.drop_left]
      rfl
    dsimp only
    rw [if_neg hle, hlen, hdrop, List.take_left]

/-- `find_ssdp_field` returns the value of the header exactly when the field occurs nowhere in the message, or the header is there and
its value stands behind the first place where the field occurs. -/
theorem findSsdpField_iff (m : Message) (name : Str) :
    findSsdpField m.text (name ++ [chColon]) = .ok (m.value (name ++ [chColon])) ↔
      ∀ p ∈ strcasestr (name ++ [chColon]) m.text, ∃ v ∈ m.value (name ++ [chColon]), Stands v p := by
  unfold findSsdpField
  cases hocc : strcasestr (name ++ [chColon]) m.text with
  | none =>
    refine iff_of_true ?_ nofun
    cases hv : m.value (name ++ [chColon]) with
    | none => rfl
    | some v =>
      obtain ⟨p, hp⟩ := m.occurs hv
      rw [hocc] at hp
      cases hp
  | some p =>
    simp only [Option.mem_some_iff, forall_eq']
    cases hv : m.value (name ++ [chColon]) with
    | some v => simp only [ssdpCopy_iff, Option.mem_some_iff, exists_eq_left']
    | none =>
      refine iff_of_false ?_ ?_
      · intro hcopy
        have hcolon := mem_of_prefixCase (strcasestr_eq_some hocc).1
        unfold ssdpCopy at hcopy
        split at hcopy
        · rename_i hnone
          exact strchr_eq_none_iff.mp hnone hcolon
        · dsimp only at hcopy
          split at hcopy
          · cases hcopy
          · cases hcopy
      · rintro ⟨v, hv, -⟩
        cases hv

theorem findSsdpField_usn : findSsdpField (str "NOTIFY * HTTP/1.1\x0d\x0ausn: ecp\x0d\x0a") (str "USN" ++ [chColon]) = .ok (some (str "ecp")) :=
  (findSsdpField_iff ⟨[(str "NOTIFY * HTTP/1.1", .crlf), (str "usn: ecp", .crlf)], [], by decide⟩ (str "USN")).mpr (by
    intro p hp
    refine ⟨str "ecp", rfl, ?_⟩
    cases hp
    exact @stands_line (str "usn") (str "ecp") (by decide) (by decide) (by decide) [chLf])

/-- `NT:` occurs in the line of another header in front of its own. -/
theorem not_findSsdpField : ¬ ∀ (m : Message) (name : Str),
    findSsdpField m.text (name ++ [chColon]) = .ok (m.value (name ++ [chColon])) := by
  intro hall
  have h := hall ⟨[(str "X-MNT: 1", .crlf), (str "NT: venstar", .crlf)], [], by decide⟩ (str "NT")
  exact absurd h (by decide)

end Gnhast
