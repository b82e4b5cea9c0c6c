import Gnhast.Lemmas.Registry
import Gnhast.Lemmas.Wire

/-!
# Devices over the wire: registration

A device that `gn_register_device` prints, read and executed by a server that does not know it. The uid and the rrdname are
printed as they are and the name between quotes, but nothing is escaped: what comes back is the device exactly when uid and
rrdname are bare and the name is one the quotes carry. Of the rrdname the server keeps 19 bytes, and for a longer one the bytes
behind those may hold anything that does not disturb the other fields; so for these only one direction is stated.
-/

namespace Gnhast

open CStr

variable (F : Doubles)

/-- A string that a server can have got from a line. -/
structure WireText (s : Str) : Prop where
  nonempty : s ≠ []
  oneLine : OneLine s

/-- A device with strings that came over the wire and numbers that `gn_register_device` sends. -/
structure Registrable (dev : Device) (name rrdname : Str) : Prop where
  uid : WireText dev.uid
  hasName : dev.name = some name
  name : WireText name
  hasRrdname : dev.rrdname = some rrdname
  rrdname : WireText rrdname
  type : dev.type ≠ 0
  proto : dev.proto ≠ 0
  subtype : dev.subtype ≠ 0

/-- What a server is to know of a device that was registered. -/
structure RegisteredAs (dev dev' : Device) : Prop where
  uid : dev'.uid = dev.uid
  name : dev'.name = dev.name
  rrdname : dev'.rrdname = dev.rrdname.map (fun r => r.take 19)
  type : dev'.type = dev.type
  proto : dev'.proto = dev.proto
  subtype : dev'.subtype = dev.subtype
  scale : dev'.scale = dev.scale

/-- The line that registers a device makes a server create the device as it is. -/
def RegisterArrives (env : Env) (c : ClientId) (dev : Device) (s : Server) : Prop :=
  ∃ line r d, gnRegisterDevice dev = some line ∧ handleLine F env c (readLine line) s = .ok r ∧
    r.srv.findDeviceByUid dev.uid = some d ∧ RegisteredAs dev (r.srv.dev d)

/-! ## The line -/

/-- The fields behind the name. -/
def regTail (dev : Device) (rrdname : Str) : Str :=
  field .rrdname rrdname ++ chSpace :: ((if dev.scale = 0 then [] else field .scale (fmtByte dev.scale) ++ [chSpace]) ++
    (field .devtype (fmtByte dev.type) ++ chSpace :: (field .proto (fmtByte dev.proto) ++ chSpace ::
      field .subtype (fmtByte dev.subtype))))

/-- The fields of the line. -/
def regRest (dev : Device) (name rrdname : Str) : Str :=
  field .uid dev.uid ++ chSpace :: (argnm .name ++ chColon :: chQuote :: (name ++ chQuote :: chSpace :: regTail dev rrdname))

theorem gnRegisterDevice_eq {dev : Device} {name rrdname : Str} (h : Registrable dev name rrdname) :
    gnRegisterDevice dev = some (str "reg" ++ chSpace :: regRest dev name rrdname ++ [chLf]) := by
  have h1 : str "reg " = str "reg" ++ [chSpace] := rfl
  have h2 : str " " = [chSpace] := rfl
  have h3 : ¬ (dev.type = 0 ∨ dev.subtype = 0 ∨ dev.proto = 0) := by
    rintro (h' | h' | h')
    · exact h.type h'
    · exact h.subtype h'
    · exact h.proto h'
  simp only [gnRegisterDevice, h.hasName, h3, if_false, h.hasRrdname, optText, h1, h2, regRest, regTail]
  split <;> simp [field, quote]

/-- The arguments behind the name, of a bare rrdname. -/
def tailArgs (dev : Device) (rrdname : Str) : List PArg :=
  ⟨.rrdname, rrdname⟩ :: ((if dev.scale = 0 then [] else [⟨.scale, dev.scale.setWidth 32⟩]) ++
    [⟨.devtype, dev.type.setWidth 32⟩, ⟨.proto, dev.proto.setWidth 32⟩, ⟨.subtype, dev.subtype.setWidth 32⟩])

theorem readArgs_regTail (dev : Device) {rrdname : Str} (h : Bare rrdname) :
    readArgs F (lex .skip [] (regTail dev rrdname)) = tailArgs dev rrdname := by
  have hlast : lex .skip [] (field .subtype (fmtByte dev.subtype)) = [field .subtype (fmtByte dev.subtype)] :=
    lex_skip_last (bare_field (bare_fmtByte _)) (field_ne_nil _ _)
  have hnum : ∀ (k : Sc) (b : BitVec 8) (s : Str),
      lex .skip [] (field k (fmtByte b) ++ chSpace :: s) = field k (fmtByte b) :: lex .skip [] s :=
    fun k b s => lex_skip_word (bare_field (bare_fmtByte b)) (field_ne_nil _ _) s
  rw [regTail, lex_skip_word (bare_field h) (field_ne_nil _ _), tailArgs]
  split
  · rw [List.nil_append, List.nil_append, hnum, hnum, hlast]
    simp [readValue, atoi_fmtByte]
  · rw [List.append_assoc, List.singleton_append, hnum, hnum, hnum, hlast]
    simp [readValue, atoi_fmtByte]

/-- The arguments of a line with bare uid and rrdname, and some word for the name. -/
theorem lastArg_tailArgs (dev : Device) (uid name rrdname : Str) :
    let args : List PArg := ⟨.uid, uid⟩ :: ⟨.name, name⟩ :: tailArgs dev rrdname
    lastArg .uid args = some uid ∧ lastArg .name args = some name ∧ lastArg .rrdname args = some rrdname ∧
      byteArg (lastArg .devtype args) = dev.type ∧ byteArg (lastArg .proto args) = dev.proto ∧
        byteArg (lastArg .subtype args) = dev.subtype ∧ byteArg (lastArg .scale args) = dev.scale := by
  unfold tailArgs
  split
  · rename_i h
    simp [lastArg, PArg.as, byteArg, h]
  · simp [lastArg, PArg.as, byteArg]

theorem oneLine_regTail {dev : Device} {rrdname : Str} (h : OneLine rrdname) : OneLine (regTail dev rrdname) := by
  have hc : chSpace ≠ chNul ∧ chSpace ≠ chLf ∧ chColon ≠ chNul ∧ chColon ≠ chLf := by decide
  have hb : ∀ b, OneLine (fmtByte b) := fun b => (Numeral.decNat _).oneLine
  unfold regTail
  split <;> simp [field, hb, hc, h]

theorem oneLine_regRest {dev : Device} {name rrdname : Str} (h : Registrable dev name rrdname) :
    OneLine (regRest dev name rrdname) := by
  have hc : chSpace ≠ chNul ∧ chSpace ≠ chLf ∧ chColon ≠ chNul ∧ chColon ≠ chLf ∧ chQuote ≠ chNul ∧ chQuote ≠ chLf := by
    decide
  simp [regRest, field, hc, h.uid.oneLine, h.name.oneLine, oneLine_regTail h.rrdname.oneLine]

/-- The line ends in a digit. -/
theorem stripCr_regLine (dev : Device) (name rrdname : Str) :
    stripCr (str "reg" ++ chSpace :: regRest dev name rrdname) = str "reg" ++ chSpace :: regRest dev name rrdname := by
  have hend : ∃ u, str "reg" ++ chSpace :: regRest dev name rrdname = u ++ fmtByte dev.subtype := by
    refine ⟨str "reg" ++ chSpace :: (field .uid dev.uid ++ chSpace :: (argnm .name ++ chColon :: chQuote ::
      (name ++ chQuote :: chSpace :: (field .rrdname rrdname ++ chSpace :: ((if dev.scale = 0 then [] else
        field .scale (fmtByte dev.scale) ++ [chSpace]) ++ (field .devtype (fmtByte dev.type) ++ chSpace ::
          (field .proto (fmtByte dev.proto) ++ chSpace :: (argnm .subtype ++ [chColon])))))))), ?_⟩
    simp [regRest, regTail, field]
  obtain ⟨u, hu⟩ := hend
  rw [hu, fmtByte, (Numeral.decNat _).stripCr]

/-- The arguments a server reads of the line. -/
def regArgs (dev : Device) (name rrdname : Str) : List PArg := readArgs F (lex .skip [] (regRest dev name rrdname))

/-- What the server executes is `cmd_register` with the arguments of the line. -/
theorem handleLine_reg {dev : Device} {name rrdname : Str} (h : Registrable dev name rrdname) (env : Env) (c : ClientId)
    (s : Server) :
    handleLine F env c (readLine (str "reg" ++ chSpace :: regRest dev name rrdname ++ [chLf])) s =
      .ok (cmdRegister (regArgs F dev name rrdname) c (s.mark c env)) := by
  have hreg : Bare (str "reg") ∧ OneLine (str "reg") ∧ findCommand (str "reg") = some .reg := by decide
  have hc : chSpace ≠ chNul ∧ chSpace ≠ chLf := by decide
  have hone : OneLine (str "reg" ++ chSpace :: regRest dev name rrdname) := by
    simp [hreg.2.1, hc, oneLine_regRest h]
  rw [readLine_append hone.2, stripCr_regLine, handleLine_some F (lineCmd_text F hreg.1 hreg.2.2 hone.1)]
  rfl

/-- What the arguments say of a device that `cmd_register` creates. -/
theorem registerArrives_iff_args {dev : Device} {name rrdname : Str} (h : Registrable dev name rrdname) {s : Server}
    (hs : s.findDeviceByUid dev.uid = none) (env : Env) (c : ClientId) :
    RegisterArrives F env c dev s ↔
      lastArg .uid (regArgs F dev name rrdname) = some dev.uid ∧ lastArg .name (regArgs F dev name rrdname) = some name ∧
        RegisteredAs dev (registered (regArgs F dev name rrdname) dev.uid name) := by
  have hhandle := handleLine_reg F h env c s
  constructor
  · rintro ⟨line, r, d, hline, hr, hd, hsame⟩
    rw [gnRegisterDevice_eq h, Option.some.injEq] at hline
    rw [← hline, hhandle] at hr
    cases hr
    obtain he | ⟨uid, nm, hu, hn, hf, -, he⟩ | ⟨uid, d', hu, hf, he⟩ := cmdRegister_cases (regArgs F dev name rrdname) c (s.mark c env)
    · rw [he] at hd
      exact absurd (hs.symm.trans hd) (by simp)
    · have hf' : (s.mark c env).findDeviceByUid (registered (regArgs F dev name rrdname) uid nm).uid = none := hf
      rw [he, create_eq hf' rfl] at hd hsame
      by_cases hud : dev.uid = uid
      · subst hud
        have hdn : d = s.nextDev := by
          have : Function.update s.devices dev.uid (some s.nextDev) dev.uid = some d := hd
          rw [Function.update_self, Option.some.injEq] at this
          exact this.symm
        subst hdn
        have hdev : RegisteredAs dev { registered (regArgs F dev name rrdname) dev.uid nm with
            collector := some c, onqClient := true, onqAll := true, nodata := true } := by
          have hself := Function.update_self (s.mark c env).nextDev
            { registered (regArgs F dev name rrdname) dev.uid nm with
              collector := some c, onqClient := true, onqAll := true, nodata := true } (s.mark c env).dev
          rw [← hself]
          exact hsame
        have hnm : nm = name := by
          have : some nm = dev.name := hdev.name
          rw [h.hasName, Option.some.injEq] at this
          exact this
        subst hnm
        exact ⟨hu, hn, hdev.uid, hdev.name, hdev.rrdname, hdev.type, hdev.proto, hdev.subtype, hdev.scale⟩
      · have : Function.update s.devices uid (some s.nextDev) dev.uid = some d := hd
        rw [Function.update_of_ne hud] at this
        exact absurd (hs.symm.trans this) (by simp)
    · rw [he] at hd
      rw [claimDevice_frame] at hd
      exact absurd (hs.symm.trans hd) (by simp)
  · rintro ⟨hu, hn, hsame⟩
    have hnew := cmdRegister_new (s := s.mark c env) c hu hs hn
      (by rw [show byteArg _ = _ from hsame.subtype]; exact h.subtype)
      (by rw [show byteArg _ = _ from hsame.type]; exact h.type)
      (by rw [show byteArg _ = _ from hsame.proto]; exact h.proto)
    have hf' : (s.mark c env).findDeviceByUid (registered (regArgs F dev name rrdname) dev.uid name).uid = none := hs
    refine ⟨_, _, s.nextDev, gnRegisterDevice_eq h, hhandle, ?_, ?_⟩
    · rw [hnew, create_eq hf' rfl]
      exact Function.update_self _ _ _
    · rw [hnew, create_eq hf' rfl]
      have hself := Function.update_self (s.mark c env).nextDev
        { registered (regArgs F dev name rrdname) dev.uid name with
          collector := some c, onqClient := true, onqAll := true, nodata := true } (s.mark c env).dev
      have hdev : RegisteredAs dev { registered (regArgs F dev name rrdname) dev.uid name with
          collector := some c, onqClient := true, onqAll := true, nodata := true } :=
        ⟨hsame.uid, hsame.name, hsame.rrdname, hsame.type, hsame.proto, hsame.subtype, hsame.scale⟩
      rw [← hself] at hdev
      exact hdev

/-! ## What the tokenizer loses -/

theorem count_regRest (dev : Device) (name rrdname : Str) :
    (regRest dev name rrdname).count chQuote =
      dev.uid.count chQuote + name.count chQuote + rrdname.count chQuote + 2 := by
  have hk : ∀ k, (argnm k).count chQuote = 0 := fun k => List.count_eq_zero.mpr (bare_argnm k).1
  have hb : ∀ b, (fmtByte b).count chQuote = 0 := fun b => List.count_eq_zero.mpr (bare_fmtByte b).1
  have hc : (chSpace == chQuote) = false ∧ (chColon == chQuote) = false := by decide
  unfold regRest regTail
  split <;> simp [field, List.count_cons, hk, hb, hc] <;> omega

/-- Strings that come back leave room for two dropped quotes. -/
theorem dropped_regRest {dev : Device} {name rrdname : Str} (hr : dev.rrdname = some rrdname) (hlen : rrdname.length ≤ 19)
    (hu : lastArg .uid (regArgs F dev name rrdname) = some dev.uid)
    (hn : lastArg .name (regArgs F dev name rrdname) = some name)
    (hsame : RegisteredAs dev (registered (regArgs F dev name rrdname) dev.uid name)) :
    dropped .skip (regRest dev name rrdname) ≤ 2 := by
  have hcount := count_lex .skip [] (regRest dev name rrdname)
  have hargs := quotes_lastArg (regArgs F dev name rrdname)
  have hwords := quotes_readArgs F (lex .skip [] (regRest dev name rrdname))
  have hrrd : rrdname.count chQuote ≤ quotes (lastArg .rrdname (regArgs F dev name rrdname)) := by
    have h := hsame.rrdname
    rw [hr, Option.map_some, List.take_of_length_le hlen] at h
    simp only [registered, Option.some.injEq] at h
    cases hl : (lastArg .rrdname (regArgs F dev name rrdname) : Option Str) with
    | some r =>
      rw [hl] at h
      have h : r.take 19 = rrdname := h
      rw [← h]
      exact (List.take_sublist 19 r).count_le chQuote
    | none =>
      rw [hl] at h
      have h : mkRrdname name = rrdname := h
      rw [← h, List.count_eq_zero.mpr (bare_mkRrdname name).1]
      exact Nat.zero_le _
  rw [count_regRest] at hcount
  rw [hu, hn] at hargs
  simp only [regArgs] at hargs hrrd
  simp only [quotes, Option.map_some, Option.getD_some, List.count_nil] at hargs hrrd hcount
  omega

/-- At most two dropped quotes: the uid holds none, and the text between the quotes drops at most one. -/
theorem header_of_dropped {dev : Device} {name rrdname : Str} (hne : name ≠ [])
    (h : dropped .skip (regRest dev name rrdname) ≤ 2) :
    chQuote ∉ dev.uid ∧ dropped .quoted (name ++ chQuote :: chSpace :: regTail dev rrdname) ≤ 1 := by
  have hsplit : regRest dev name rrdname =
      (field .uid dev.uid ++ chSpace :: argnm .name) ++ (chColon :: (chQuote ::
        (name ++ chQuote :: chSpace :: regTail dev rrdname))) := by
    simp [regRest]
  rw [hsplit, dropped_append, dropped_cons_of_ne (by decide)] at h
  have hpar := inside_run .skip (field .uid dev.uid ++ chSpace :: argnm .name)
  generalize Mode.run .skip (field .uid dev.uid ++ chSpace :: argnm .name) = m at h hpar
  have hzero : Mode.skip.inside.toNat = 0 := rfl
  rw [hzero, Nat.add_zero] at hpar
  cases hin : m.inside with
  | true =>
    -- the quote before the name closes, and the one behind it opens again
    have hm : m.next chColon = .quoted := by
      cases m with
      | top | after | skip => cases hin
      | quoted | escaped => rfl
    obtain ⟨c, t, rfl⟩ := List.exists_cons_of_ne_nil hne
    have hd : ¬ Mode.after.drops = true := by decide
    have hafter : dropped .after (c :: t ++ chQuote :: chSpace :: regTail dev rrdname) =
        dropped (Mode.after.next c) (t ++ chQuote :: chSpace :: regTail dev rrdname) := by
      rw [List.cons_append, dropped, if_neg (fun he => hd he.2), Nat.zero_add]
    have hmode : Mode.after.next c = .top ∨ Mode.after.next c = .skip := by
      simp only [Mode.next]
      split <;> simp
    have hpos : 0 < dropped (Mode.after.next c) (t ++ chQuote :: chSpace :: regTail dev rrdname) :=
      dropped_pos hmode (by simp)
    rw [hm, dropped] at h
    simp only [Mode.drops, Mode.next, and_self, if_true] at h
    rw [hin] at hpar
    simp only [Bool.toNat_true, Mode.next] at hpar hafter hpos
    omega
  | false =>
    have hm : m.next chColon = .top := by
      cases m with
      | top | after | skip => rfl
      | quoted | escaped => cases hin
    rw [hm, dropped] at h
    simp only [Mode.drops, Mode.next, and_self, if_true] at h
    rw [hin] at hpar
    simp only [Bool.toNat_false] at hpar
    refine ⟨fun hq => ?_, by omega⟩
    have hpos : 0 < dropped .skip (field .uid dev.uid ++ chSpace :: argnm .name) :=
      dropped_pos (Or.inr rfl) (by simp [field, hq])
    omega

theorem uid_bare {dev : Device} {name rrdname : Str} (hu : chQuote ∉ dev.uid)
    (hd : dropped .quoted (name ++ chQuote :: chSpace :: regTail dev rrdname) ≤ 1)
    (h : lastArg .uid (regArgs F dev name rrdname) = some dev.uid) : Bare dev.uid := by
  obtain ⟨tmp, hb, he⟩ := exists_bare_headed F hu hd (by decide) h
  have he : dev.uid = tmp := he
  exact he ▸ hb

theorem rrdname_bare {dev : Device} {name rrdname : Str} (hr : dev.rrdname = some rrdname) (hlen : rrdname.length ≤ 19)
    (hu : chQuote ∉ dev.uid) (hd : dropped .quoted (name ++ chQuote :: chSpace :: regTail dev rrdname) ≤ 1)
    (hsame : RegisteredAs dev (registered (regArgs F dev name rrdname) dev.uid name)) : Bare rrdname := by
  have h := hsame.rrdname
  rw [hr, Option.map_some, List.take_of_length_le hlen] at h
  simp only [registered, Option.some.injEq] at h
  cases hl : (lastArg .rrdname (regArgs F dev name rrdname) : Option Str) with
  | some r =>
    rw [hl] at h
    have h : r.take 19 = rrdname := h
    obtain ⟨tmp, hb, he⟩ := exists_bare_headed F hu hd (by decide) hl
    have he : r = tmp := he
    rw [← h, he]
    exact ⟨fun hm => hb.1 (List.mem_of_mem_take hm), fun hm => hb.2 (List.mem_of_mem_take hm)⟩
  | none =>
    rw [hl] at h
    have h : mkRrdname name = rrdname := h
    rw [← h]
    exact bare_mkRrdname name

theorem quote_notMem_regTail (dev : Device) {rrdname : Str} (h : Bare rrdname) : chQuote ∉ regTail dev rrdname := by
  have hk : ∀ k, chQuote ∉ argnm k := fun k => (bare_argnm k).1
  have hb : ∀ b, chQuote ∉ fmtByte b := fun b => (bare_fmtByte b).1
  have hc : chQuote ≠ chSpace ∧ chQuote ≠ chColon := by decide
  unfold regTail
  split <;> simp [field, hk, hb, hc, h.1]

/-! ## The round trip -/

theorem registeredAs_args {dev : Device} {name rrdname : Str} (h : Registrable dev name rrdname)
    (hargs : regArgs F dev name rrdname = ⟨.uid, dev.uid⟩ :: ⟨.name, name⟩ :: tailArgs dev rrdname) :
    lastArg .uid (regArgs F dev name rrdname) = some dev.uid ∧ lastArg .name (regArgs F dev name rrdname) = some name ∧
      RegisteredAs dev (registered (regArgs F dev name rrdname) dev.uid name) := by
  obtain ⟨h1, h2, h3, h4, h5, h6, h7⟩ := lastArg_tailArgs dev dev.uid name rrdname
  rw [hargs]
  refine ⟨h1, h2, rfl, h.hasName.symm, ?_, h4, h5, h6, h7⟩
  simp only [registered]
  rw [h3, h.hasRrdname]
  rfl

/-- Every device with bare uid and rrdname and a quotable name comes back; and of the others, with an rrdname of at most 19
bytes, none does. -/
theorem registerArrives_iff {dev : Device} {name rrdname : Str} (h : Registrable dev name rrdname) {s : Server}
    (hs : s.findDeviceByUid dev.uid = none) (env : Env) (c : ClientId) :
    (Bare dev.uid ∧ Quotable name ∧ Bare rrdname → RegisterArrives F env c dev s) ∧
      (rrdname.length ≤ 19 → RegisterArrives F env c dev s → Bare dev.uid ∧ Quotable name ∧ Bare rrdname) := by
  constructor
  · rintro ⟨hu, hn, hr⟩
    rw [registerArrives_iff_args F h hs]
    refine registeredAs_args F h ?_
    rw [regArgs, show regRest dev name rrdname = headed dev.uid name (regTail dev rrdname) from rfl, readArgs_headed F hu hn,
      readArgs_regTail F dev hr]
  · intro hlen hreg
    obtain ⟨hu, hn, hsame⟩ := (registerArrives_iff_args F h hs env c).mp hreg
    obtain ⟨huq, hd⟩ := header_of_dropped h.name.nonempty (dropped_regRest F h.hasRrdname hlen hu hn hsame)
    have hub := uid_bare F huq hd hu
    have hrb := rrdname_bare F h.hasRrdname hlen huq hd hsame
    refine ⟨hub, ?_, hrb⟩
    have hw : argnm .name ++ [chColon] = field .name [] := by simp [field]
    have hargs : ∀ v, field .name [] ++ v = field .name v := fun v => by simp [field]
    rw [regArgs, show regRest dev name rrdname = headed dev.uid name (regTail dev rrdname) from rfl, words_headed_bare hub] at hn hsame
    rcases quotable_of_lex hd (quote_notMem_regTail dev hrb) (argnm .name ++ [chColon]) with ⟨v, -, hv⟩ | ⟨v, hv, hq⟩
    · -- the name took the rest of the line: the line has no type
      rw [hv, hw, hargs, readArgs_field, readArgs_field, readArgs_nil] at hsame
      exact absurd hsame.type.symm h.type
    · rw [hv, hw, hargs, readArgs_field, readArgs_field, readArgs_regTail F dev hrb] at hn
      have hname := (lastArg_tailArgs dev dev.uid v rrdname).2.1
      refine hq ?_
      exact Option.some.inj (hname.symm.trans hn)

theorem registerArrives_iff_lamp :
    RegisterArrives Doubles.exact {} 0
      { uid := str "lamp", name := some (str "Lamp \\1"), rrdname := some (str "lamp_1"), type := 1, proto := 3, subtype := 1 }
      {} :=
  (registerArrives_iff Doubles.exact
    ⟨⟨by decide, by decide⟩, rfl, ⟨by decide, by decide⟩, rfl, ⟨by decide, by decide⟩, by decide, by decide, by decide⟩
    rfl {} 0).1 ⟨by decide, ⟨str "Lamp \\1", by decide, by decide, Or.inl rfl⟩, by decide⟩

/-- The second quote of the line closes the name, and the third takes the rest of the line between quotes: the device is
refused. -/
theorem not_registerArrives_inches :
    ¬ RegisterArrives Doubles.exact {} 0
      { uid := str "fan", name := some (str "9\" fan"), rrdname := some (str "fan"), type := 1, proto := 3, subtype := 1 } {} := by
  rintro ⟨line, r, d, hline, hr, hd, -⟩
  cases hline
  have hsrv : (handleLine Doubles.exact {} 0
      (readLine (str "reg uid:fan name:\"9\" fan\" rrdname:fan devt:1 proto:3 subt:1\n")) {}).map
        (fun r => r.srv.findDeviceByUid (str "fan")) = .ok none := by rfl
  obtain ⟨r', hr', he⟩ := Except.map_eq_ok.mp hsrv
  have hrr : r' = r := Except.ok.inj (hr'.symm.trans hr)
  rw [← hrr, he] at hd
  cases hd

end Gnhast
