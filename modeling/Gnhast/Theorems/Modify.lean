import Gnhast.Lemmas.Modify
import Gnhast.Lemmas.Registry
import Gnhast.Lemmas.Wire

/-!
# The settings of a device over the wire, with `mod`

A collector sends what its configuration says of a device, and the server is to have the same settings then. Only the name is
printed in quotes, so a blank in any other string cuts it, and what comes behind it can be read as another setting. A setting
that the collector does not have is not sent, and the server keeps its own.
-/

namespace Gnhast

open CStr

variable (F : Doubles)

/-! ## What is to be had -/

/-- A string as a configuration can hold it: on one line, without quotes and without commas. -/
def ConfText (s : Str) : Prop := OneLine s ∧ chQuote ∉ s ∧ chComma ∉ s

instance (s : Str) : Decidable (ConfText s) := inferInstanceAs (Decidable (_ ∧ _))

/-- All strings of a device are such strings. -/
def Configured (cd : Device) : Prop :=
  ∀ s ∈ cd.uid :: (cd.name.toList ++ cd.rrdname.toList ++ cd.handler.toList ++ cd.hargs.items ++ cd.tagTexts), ConfText s

instance (cd : Device) : Decidable (Configured cd) := inferInstanceAs (Decidable (∀ s ∈ _, ConfText s))

/-- A device of the server has the settings of a device of a collector. -/
structure SameSettings (cd dev : Device) : Prop where
  name : dev.name = cd.name
  rrdname : dev.rrdname = cd.rrdname
  handler : dev.handler = cd.handler
  hargs : dev.hargs.items = cd.hargs.items
  tags : dev.tags.items.map Tag.str? = cd.tags.items.map Tag.str?
  flags : dev.spamhandler = cd.spamhandler ∧ dev.changehandler = cd.changehandler
  lowat : ∀ m, storeMember cd.devType cd.devSubtype = some m → m.value F dev.lowat = m.sent F (m.value F cd.lowat)
  hiwat : ∀ m, storeMember cd.devType cd.devSubtype = some m → m.value F dev.hiwat = m.sent F (m.value F cd.hiwat)

/-- The server executes the line that the collector writes, and its device has the settings then. -/
def ModifyArrives (env : Env) (c : ClientId) (cd : Device) (s : Server) (d : DevId) : Prop :=
  ∃ line r, gnModifyDevice F cd = .ok (some line) ∧ handleLine F env c (readLine line) s = .ok r ∧
    SameSettings F cd (r.srv.dev d)

/-- No string is cut: the name does not take the quote behind it for its own, and the others hold no blank. -/
structure Uncut (cd : Device) : Prop where
  uid : chSpace ∉ cd.uid
  name : ∀ name, cd.name = some name → ¬ EndsInBackslash name
  rrdname : ∀ r, cd.rrdname = some r → chSpace ∉ r
  handler : ∀ h, cd.handler = some h → chSpace ∉ h
  hargs : ∀ a ∈ cd.hargs.items, chSpace ∉ a
  tags : ∀ a ∈ cd.tagTexts, chSpace ∉ a

/-- What is not sent, the server has already; and what is sent is read as it is. -/
structure Settles (cd dev : Device) : Prop where
  rrdname : cd.rrdname = none → dev.rrdname = none
  handler : cd.handler = none →
    dev.handler = none ∧ dev.spamhandler = cd.spamhandler ∧ dev.changehandler = cd.changehandler
  flags : cd.handler ≠ none → ¬ (cd.spamhandler = true ∧ cd.changehandler = true)
  noHargs : cd.hargs.items = [] → dev.hargs.items = []
  hargs : ∀ a ∈ cd.hargs.items, a ≠ []
  noTags : cd.tags.items = [] → dev.tags.items = []
  tags : (∀ a ∈ cd.tagTexts, a ≠ []) ∧ cd.tags.items.length % 2 = 0
  last : ∀ a, (cd.hargs.items ++ cd.tagTexts).getLast? = some a → a.getLast? ≠ some chCr
  water : ∀ m, storeMember cd.devType cd.devSubtype = some m → WaterArrives F cd m .lowat ∧ WaterArrives F cd m .hiwat

/-- What a device of a collector and the server's own need; in the server's devices, and in the collector's, every slot of the
tags was written. -/
structure ModifyFits (cd : Device) (s : Server) (d : DevId) : Prop where
  written : cd.Readable ∧ ∀ d ∈ s.alldevs, (s.dev d).Readable
  uncut : Uncut cd
  settles : Settles F cd (s.dev d)

/-! ## The line -/

/-- The fields in front of the lists. -/
def headFields (cd : Device) : List (Sc × Str) :=
  cd.rrdname.toList.map (fun r => (.rrdname, r)) ++ ((if cd.scale = 0 then [] else [(.scale, fmtByte cd.scale)]) ++
    (.lowat, printData F cd .lowat id) :: (.hiwat, printData F cd .hiwat id) ::
      cd.handler.toList.flatMap fun h => [(.handler, h), (.spam, spamSetting cd)])

/-- The fields behind the name. -/
def settingFields (cd : Device) (hargs tags : List Str) : List (Sc × Str) :=
  headFields F cd ++ (listField .hargs hargs ++ listField .tags tags)

/-- The text in front of the lists. -/
def headText (cd : Device) : Str :=
  optText cd.rrdname (fun r => field .rrdname r ++ [chSpace]) ++
    ((if cd.scale = 0 then [] else field .scale (fmtByte cd.scale) ++ [chSpace]) ++
      chSpace :: (field .lowat (printData F cd .lowat id) ++ chSpace :: (field .hiwat (printData F cd .hiwat id) ++
        ((if datatypeDev cd = .uint then [chSpace] else []) ++ optText cd.handler fun h =>
          chSpace :: (field .handler h ++ chSpace :: (field .spam (spamSetting cd) ++ [chSpace]))))))

/-- The text of a list. -/
def listText (k : Sc) (l : List Str) : Str := if l = [] then [] else chSpace :: field k (join chComma l)

/-- The text behind the name. -/
def settingText (cd : Device) (hargs tags : List Str) : Str :=
  headText F cd ++ (listText .hargs hargs ++ listText .tags tags)

theorem gnModifyDevice_text {cd : Device} {name : Str} {tags : List Str} (hn : cd.name = some name)
    (ht : readTags cd.tags.items = .ok tags) :
    gnModifyDevice F cd = .ok (some (str "mod" ++ chSpace :: headed cd.uid name (settingText F cd cd.hargs.items tags) ++ [chLf])) := by
  have h1 : str "mod " = str "mod" ++ [chSpace] := rfl
  have h2 : str " " = [chSpace] := rfl
  simp only [gnModifyDevice, hn, ht, Except.map, h1, h2, headed, settingText, headText, listText]
  cases cd.rrdname <;> cases cd.handler <;> simp [field, quote, optText]

theorem ends_listText (k : Sc) (l : List Str) : Ends (listText k l) := by
  unfold listText
  split
  · exact Or.inl rfl
  · exact Or.inr ⟨_, rfl⟩

theorem spaced_listText (k : Sc) (l : List Str) : Spaced (listField k l) (listText k l) := by
  unfold listField listText
  split
  · exact .nil
  · have h := Spaced.field k (join chComma l) .nil (Or.inl rfl)
    rw [List.append_nil] at h
    exact h.blank

theorem spaced_headText (cd : Device) : Spaced (headFields F cd) (headText F cd) := by
  have hhandler : Spaced (cd.handler.toList.flatMap fun h => [(.handler, h), (.spam, spamSetting cd)]) (optText cd.handler fun h =>
      chSpace :: (field .handler h ++ chSpace :: (field .spam (spamSetting cd) ++ [chSpace]))) := by
    cases cd.handler with
    | none => exact .nil
    | some h => exact ((Spaced.blank .nil).field .spam (spamSetting cd) (Or.inr ⟨[], rfl⟩) |>.cons .handler h).blank
  have hwater : ∀ (k : Sc) (v : Str), Spaced ((k, v) :: cd.handler.toList.flatMap fun h => [(.handler, h), (.spam, spamSetting cd)])
      (field k v ++ ((if datatypeDev cd = .uint then [chSpace] else []) ++ optText cd.handler fun h =>
        chSpace :: (field .handler h ++ chSpace :: (field .spam (spamSetting cd) ++ [chSpace])))) := by
    intro k v
    split
    · exact .field k v hhandler.blank (Or.inr ⟨_, rfl⟩)
    · refine .field k v hhandler ?_
      cases cd.handler with
      | none => exact Or.inl rfl
      | some h => exact Or.inr ⟨_, rfl⟩
  have hboth := ((hwater .hiwat (printData F cd .hiwat id)).cons .lowat (printData F cd .lowat id)).blank
  unfold headFields headText
  cases hr : cd.rrdname with
  | none =>
    by_cases hs : cd.scale = 0
    · simpa only [hs, optText, Option.toList_none, List.map_nil, List.nil_append, if_true] using hboth
    · simpa only [hs, optText, Option.toList_none, List.map_nil, List.nil_append, if_false, List.append_assoc,
        List.singleton_append] using hboth.cons .scale (fmtByte cd.scale)
  | some r =>
    by_cases hs : cd.scale = 0
    · simpa only [hs, optText, Option.toList_some, List.map_cons, List.map_nil, List.nil_append, if_true, List.append_assoc,
        List.singleton_append] using hboth.cons .rrdname r
    · simpa only [hs, optText, Option.toList_some, List.map_cons, List.map_nil, if_false, List.append_assoc,
        List.singleton_append, List.cons_append, List.nil_append] using (hboth.cons .scale (fmtByte cd.scale)).cons .rrdname r

theorem spaced_settingText (cd : Device) (hargs tags : List Str) :
    Spaced (settingFields F cd hargs tags) (settingText F cd hargs tags) :=
  (spaced_headText F cd).append ((spaced_listText .hargs hargs).append (spaced_listText .tags tags) (ends_listText _ _))
    ((ends_listText _ _).append (ends_listText _ _))

/-! ### The end of the line -/

theorem getLast?_headText (cd : Device) : (headText F cd).getLast? ≠ some chCr := by
  have hsp : chSpace ≠ chCr := by decide
  obtain ⟨u, v, he, hv⟩ : ∃ u v, headText F cd = u ++ v ∧ (v = [chSpace] ∨ Numeral v) := by
    unfold headText
    cases hh : cd.handler with
    | some h =>
      refine ⟨optText cd.rrdname (fun r => field .rrdname r ++ [chSpace]) ++
        ((if cd.scale = 0 then [] else field .scale (fmtByte cd.scale) ++ [chSpace]) ++
          chSpace :: (field .lowat (printData F cd .lowat id) ++ chSpace :: (field .hiwat (printData F cd .hiwat id) ++
            ((if datatypeDev cd = .uint then [chSpace] else []) ++
              chSpace :: (field .handler h ++ chSpace :: field .spam (spamSetting cd)))))), [chSpace], ?_, Or.inl rfl⟩
      simp [optText]
    | none =>
      refine ⟨optText cd.rrdname (fun r => field .rrdname r ++ [chSpace]) ++
        ((if cd.scale = 0 then [] else field .scale (fmtByte cd.scale) ++ [chSpace]) ++
          chSpace :: (field .lowat (printData F cd .lowat id) ++ chSpace :: (argnm .hiwat ++ [chColon] ++
            if datatypeDev cd = .uint then printData F cd .hiwat id else []))),
        if datatypeDev cd = .uint then [chSpace] else printData F cd .hiwat id, ?_, ?_⟩
      · by_cases hu : datatypeDev cd = .uint <;> simp [optText, field, hu]
      · split
        · exact Or.inl rfl
        · exact Or.inr (numeral_printData F cd .hiwat id)
  intro hcr
  rcases hv with rfl | hv
  · rw [he, List.getLast?_concat] at hcr
    exact hsp (Option.some.inj hcr)
  · rw [he, List.getLast?_append_of_ne_nil _ hv.nonempty, List.getLast?_eq_some_getLast hv.nonempty, Option.some.injEq] at hcr
    exact hv.notMem (c := chCr) (by decide) (hcr ▸ List.getLast_mem hv.nonempty)

theorem stripCr_listText (u : Str) (k : Sc) {l : List Str} (h : l ≠ []) :
    stripCr (u ++ listText k l) = u ++ listText k (stripLast l) := by
  rw [listText, if_neg h, listText, if_neg (mt stripLast_eq_nil.mp h), stripCr_append_cons (by decide), field,
    stripCr_append_cons (by decide), stripCr_join]
  rfl

/-- The arguments as they are read: at the end of the line only if there are no tags. -/
def lastHargs (hargs tags : List Str) : List Str := if tags = [] then stripLast hargs else hargs

theorem stripCr_settingText (u : Str) (cd : Device) (hargs tags : List Str) :
    stripCr (u ++ settingText F cd hargs tags) = u ++ settingText F cd (lastHargs hargs tags) (stripLast tags) := by
  unfold settingText lastHargs
  by_cases ht : tags = []
  · rw [if_pos ht, ht]
    by_cases hh : hargs = []
    · have hne : headText F cd ≠ [] := by
        unfold headText
        simp
      have hlast : (u ++ headText F cd).getLast? ≠ some chCr := by
        rw [List.getLast?_append_of_ne_nil _ hne]
        exact getLast?_headText F cd
      have hnil : ∀ k, listText k [] = [] := fun k => if_pos rfl
      simp only [hh, stripLast, hnil, List.append_nil]
      exact if_neg hlast
    · have h := stripCr_listText (u ++ headText F cd) .hargs hh
      have hnil : listText .tags [] = [] := if_pos rfl
      simp only [stripLast, hnil, List.append_nil]
      rw [← List.append_assoc, h, List.append_assoc]
  · have h := stripCr_listText (u ++ headText F cd ++ listText .hargs hargs) .tags ht
    rw [if_neg ht]
    simp only [← List.append_assoc] at h ⊢
    exact h

/-! ### The line as it is read -/

theorem numeral_digit {c : Byte} (h : isdigit c = true) : Numeral [c] :=
  ⟨List.cons_ne_nil c [], fun _ hd => Or.inr (Or.inr ((List.mem_singleton.mp hd).symm ▸ h))⟩

theorem numeral_spamSetting (cd : Device) : Numeral (spamSetting cd) := by
  unfold spamSetting
  split
  · exact numeral_digit (c := 49) rfl
  · split
    · exact numeral_digit (c := 50) rfl
    · exact numeral_digit (c := 48) rfl

/-- What holds of numbers, of joined strings and of the strings of a device holds of all that is printed. -/
theorem forall_settingFields {P : Str → Prop} (hnum : ∀ {s : Str}, Numeral s → P s)
    (hjoin : ∀ {l : List Str}, (∀ a ∈ l, P a) → P (join chComma l)) {cd : Device} (hr : ∀ r, cd.rrdname = some r → P r)
    (hh : ∀ h, cd.handler = some h → P h) {hargs tags : List Str} (ha : ∀ a ∈ hargs, P a) (ht : ∀ a ∈ tags, P a) :
    ∀ f ∈ settingFields F cd hargs tags, P f.2 := by
  have hlist : ∀ (k : Sc) {l : List Str}, (∀ a ∈ l, P a) → ∀ f ∈ listField k l, P f.2 := by
    intro k l hl f hf
    unfold listField at hf
    split at hf
    · cases hf
    · rw [List.mem_singleton.mp hf]
      exact hjoin hl
  intro f hf
  rcases List.mem_append.mp hf with hf | hf
  · rcases List.mem_append.mp hf with hf | hf
    · obtain ⟨r, hr', rfl⟩ := List.mem_map.mp hf
      exact hr r (Option.mem_toList.mp hr')
    · rcases List.mem_append.mp hf with hf | hf
      · split at hf
        · cases hf
        · rw [List.mem_singleton.mp hf]
          exact hnum (.decNat _)
      · simp only [List.mem_cons, List.mem_flatMap, Option.mem_toList, List.not_mem_nil, or_false] at hf
        rcases hf with rfl | rfl | ⟨h, hh', rfl | rfl⟩
        · exact hnum (numeral_printData F cd .lowat id)
        · exact hnum (numeral_printData F cd .hiwat id)
        · exact hh h hh'
        · exact hnum (numeral_spamSetting cd)
  · rcases List.mem_append.mp hf with hf | hf
    · exact hlist _ ha f hf
    · exact hlist _ ht f hf

/-- A string that is on one line and holds no quote. -/
def Plain (s : Str) : Prop := OneLine s ∧ chQuote ∉ s

theorem ConfText.plain {s : Str} (h : ConfText s) : Plain s := ⟨h.1, h.2.1⟩

theorem Numeral.plain {s : Str} (h : Numeral s) : Plain s := ⟨h.oneLine, h.bare.1⟩

theorem plain_join {l : List Str} (h : ∀ a ∈ l, Plain a) : Plain (join chComma l) := by
  refine ⟨oneLine_join fun a ha => (h a ha).1, fun hm => ?_⟩
  rcases mem_join hm with he | ⟨a, ha, hm⟩
  · exact absurd he (by decide)
  · exact (h a ha).2 hm

/-- A device of a collector with its name and the strings of its tags. -/
structure Named (cd : Device) (name : Str) (tags : List Str) : Prop where
  configured : Configured cd
  name : cd.name = some name
  tags : readTags cd.tags.items = .ok tags

namespace Named

variable {cd : Device} {name : Str} {tags : List Str} (h : Named cd name tags)

include h

theorem tagTexts : cd.tagTexts = tags := tagTexts_of_readTags h.tags

theorem uidText : ConfText cd.uid := h.configured _ List.mem_cons_self

theorem nameText : ConfText name := h.configured _ (by simp [h.name])

theorem rrdnameText {r : Str} (hr : cd.rrdname = some r) : ConfText r := h.configured _ (by simp [hr])

theorem handlerText {p : Str} (hp : cd.handler = some p) : ConfText p := h.configured _ (by simp [hp])

theorem hargsText {a : Str} (ha : a ∈ cd.hargs.items) : ConfText a := h.configured _ (by simp [ha])

theorem tagsText {a : Str} (ha : a ∈ tags) : ConfText a := h.configured _ (by simp [h.tagTexts, ha])

/-- The strings of the lists, as they are read. -/
theorem lastText : (∀ a ∈ lastHargs cd.hargs.items tags, ConfText a) ∧ ∀ a ∈ stripLast tags, ConfText a := by
  have hcr : ∀ u, ConfText (u ++ [chCr]) → ConfText u := by
    rintro u ⟨h1, h2, h3⟩
    exact ⟨(oneLine_append.mp h1).1, fun hm => h2 (List.mem_append_left _ hm), fun hm => h3 (List.mem_append_left _ hm)⟩
  refine ⟨?_, forall_stripLast hcr fun a ha => h.tagsText ha⟩
  unfold lastHargs
  split
  · exact forall_stripLast hcr fun a ha => h.hargsText ha
  · exact fun a ha => h.hargsText ha

/-- The settings, as they are sent and as they are read. -/
theorem plainFields : (∀ f ∈ settingFields F cd cd.hargs.items tags, Plain f.2) ∧
    ∀ f ∈ settingFields F cd (lastHargs cd.hargs.items tags) (stripLast tags), Plain f.2 :=
  ⟨forall_settingFields F Numeral.plain plain_join (fun _ hr => (h.rrdnameText hr).plain) (fun _ hp => (h.handlerText hp).plain)
      (fun _ ha => (h.hargsText ha).plain) fun _ ha => (h.tagsText ha).plain,
    forall_settingFields F Numeral.plain plain_join (fun _ hr => (h.rrdnameText hr).plain) (fun _ hp => (h.handlerText hp).plain)
      (fun a ha => (h.lastText.1 a ha).plain) fun a ha => (h.lastText.2 a ha).plain⟩

end Named

/-- The arguments a server reads of the line. -/
def modArgs (cd : Device) (name : Str) (tags : List Str) : List PArg :=
  readArgs F (lex .skip [] (headed cd.uid name (settingText F cd (lastHargs cd.hargs.items tags) (stripLast tags))))

/-- What the server executes is `cmd_modify` with the arguments of the line. -/
theorem handleLine_mod {cd : Device} {name : Str} {tags : List Str} (h : Named cd name tags) (env : Env) (c : ClientId)
    (s : Server) :
    handleLine F env c (readLine (str "mod" ++ chSpace :: headed cd.uid name (settingText F cd cd.hargs.items tags) ++ [chLf])) s =
      cmdModify F (modArgs F cd name tags) c (s.mark c env) := by
  have hmod : Bare (str "mod") ∧ OneLine (str "mod") ∧ findCommand (str "mod") = some .mod := by decide
  have hc : chSpace ≠ chNul ∧ chSpace ≠ chLf ∧ chColon ≠ chNul ∧ chColon ≠ chLf ∧ chQuote ≠ chNul ∧ chQuote ≠ chLf := by
    decide
  have hone : ∀ hargs tags, OneLine (settingText F cd hargs tags) →
      OneLine (str "mod" ++ chSpace :: headed cd.uid name (settingText F cd hargs tags)) := by
    intro hargs tags ht
    simp [headed, field, hmod.2.1, hc, h.uidText.1, h.nameText.1, ht]
  have hsent := (spaced_settingText F cd cd.hargs.items tags).oneLine fun f hf => ((h.plainFields F).1 f hf).1
  have hread := (spaced_settingText F cd (lastHargs cd.hargs.items tags) (stripLast tags)).oneLine fun f hf =>
    ((h.plainFields F).2 f hf).1
  have hstrip : stripCr (str "mod" ++ chSpace :: headed cd.uid name (settingText F cd cd.hargs.items tags)) =
      str "mod" ++ chSpace :: headed cd.uid name (settingText F cd (lastHargs cd.hargs.items tags) (stripLast tags)) := by
    have hcr := stripCr_settingText F (str "mod" ++ chSpace :: (field .uid cd.uid ++ chSpace :: (argnm .name ++ chColon ::
      chQuote :: (name ++ [chQuote, chSpace])))) cd cd.hargs.items tags
    simpa [headed] using hcr
  rw [readLine_append (hone _ _ hsent).2, hstrip, handleLine_some F (lineCmd_text F hmod.1 hmod.2.2 (hone _ _ hread).1)]
  rfl

/-- Whether the settings arrive is a matter of what `cmd_modify` makes of the arguments. -/
theorem modifyArrives_iff_run {cd : Device} {name : Str} {tags : List Str} (h : Named cd name tags) (env : Env) (c : ClientId)
    (s : Server) (d : DevId) :
    ModifyArrives F env c cd s d ↔
      ∃ r, cmdModify F (modArgs F cd name tags) c (s.mark c env) = .ok r ∧ SameSettings F cd (r.srv.dev d) := by
  have hline := gnModifyDevice_text F h.name h.tags
  constructor
  · rintro ⟨line, r, hl, hr, hsame⟩
    rw [hline, Except.ok.injEq, Option.some.injEq] at hl
    rw [← hl, handleLine_mod F h] at hr
    exact ⟨r, hr, hsame⟩
  · rintro ⟨r, hr, hsame⟩
    exact ⟨_, r, hline, by rw [handleLine_mod F h, hr], hsame⟩

/-! ## What has to come through -/

/-- Where the uid comes through, and the device has the settings, no string was cut. -/
theorem uncut_of_sameSettings {cd : Device} {name : Str} {tags : List Str} (h : Named cd name tags) {dev dev' : Device}
    (hu : lastArg .uid (modArgs F cd name tags) = some cd.uid) (he : Edited F (modArgs F cd name tags) dev dev')
    (hsame : SameSettings F cd dev') : Uncut cd := by
  have hspaced := spaced_settingText F cd (lastHargs cd.hargs.items tags) (stripLast tags)
  have hq := hspaced.noQuote fun f hf => ((h.plainFields F).2 f hf).2
  have hd : dropped .quoted (name ++ chQuote :: chSpace :: settingText F cd (lastHargs cd.hargs.items tags) (stripLast tags)) ≤ 1 := by
    refine (dropped_le_count _ _).trans ?_
    have hc : (chSpace == chQuote) = false := by decide
    simp [List.count_cons, List.count_eq_zero.mpr h.nameText.2.1, List.count_eq_zero.mpr hq, hc]
  have hbare : Bare cd.uid := by
    obtain ⟨tmp, hb, hv⟩ := exists_bare_headed F h.uidText.2.1 hd (by decide) hu
    have hv : cd.uid = tmp := hv
    exact hv ▸ hb
  have hname : ¬ EndsInBackslash name := by
    intro hb
    have h0 : dropped .quoted name = 0 :=
      Nat.le_zero.mp ((dropped_le_count _ _).trans (List.count_eq_zero.mpr h.nameText.2.1).le)
    obtain ⟨v, hv, hl⟩ := lex_swallowed h0 hb hq (argnm .name ++ [chColon])
    have hfield : argnm .name ++ [chColon] ++ v = field .name v := by simp [field]
    have hlast : lastArg .name (modArgs F cd name tags) = some v := by
      rw [modArgs, words_headed_bare hbare, hl, hfield, readArgs_field, readArgs_field]
      rfl
    have hn := he.name
    rw [hlast, Option.some_or, hsame.name, h.name, Option.some.injEq] at hn
    exact h.nameText.2.1 (hn ▸ hv)
  -- every setting that was printed is read from a bare text
  have hread : ∀ k v, (k, v) ∈ settingFields F cd (lastHargs cd.hargs.items tags) (stripLast tags) →
      ∃ x, Bare x ∧ lastArg k (modArgs F cd name tags) = some (readValue F k.type x) := by
    intro k v hm
    obtain ⟨x, hb, hx⟩ := hspaced.exists_lastArg F (fun f hf => ((h.plainFields F).2 f hf).2) ⟨v, hm⟩
    refine ⟨x, hb, ?_⟩
    rw [modArgs, readArgs_headed F hbare (.of_notMem h.nameText.2.1 hname), lastArg_cons, lastArg_cons, hx]
    rfl
  refine ⟨hbare.2, fun n hn => ?_, fun r hr => ?_, fun p hp => ?_, fun a ha => ?_, fun a ha => ?_⟩
  · rw [h.name, Option.some.injEq] at hn
    exact hn ▸ hname
  · obtain ⟨x, hb, hx⟩ := hread .rrdname r (by simp [settingFields, headFields, hr])
    have hval := he.rrdname
    rw [hx, Option.some_or, hsame.rrdname, hr, Option.some.injEq] at hval
    exact hval ▸ hb.2
  · obtain ⟨x, hb, hx⟩ := hread .handler p (by simp [settingFields, headFields, hp])
    have hval := he.handler
    rw [hx, Option.some_or, hsame.handler, hp, Option.some.injEq] at hval
    exact hval ▸ hb.2
  · have hne : lastHargs cd.hargs.items tags ≠ [] := by
      unfold lastHargs
      split
      · exact mt stripLast_eq_nil.mp (List.ne_nil_of_mem ha)
      · exact List.ne_nil_of_mem ha
    obtain ⟨x, hb, hx⟩ := hread .hargs _ (List.mem_append_right _ (List.mem_append_left _ (by
      rw [listField, if_neg hne]
      exact List.mem_singleton_self _)))
    have hval := he.hargs
    rw [hx, hsame.hargs] at hval
    rw [hval] at ha
    exact fun hm => hb.2 ((mem_strtok ha).2.2 hm)
  · rw [h.tagTexts] at ha
    have hne : stripLast tags ≠ [] := mt stripLast_eq_nil.mp (List.ne_nil_of_mem ha)
    obtain ⟨x, hb, hx⟩ := hread .tags _ (List.mem_append_right _ (List.mem_append_right _ (by
      rw [listField, if_neg hne]
      exact List.mem_singleton_self _)))
    have hval := he.tags
    rw [hx] at hval
    have hslots : tags.map some = (tagSlots (strtok chComma x)).map Tag.str? := by
      rw [← readTags_ok.mp h.tags, ← hsame.tags, hval]
      rfl
    have hm : some a ∈ (tagSlots (strtok chComma x)).map Tag.str? := hslots ▸ List.mem_map_of_mem ha
    obtain ⟨slot, hslot, hs⟩ := List.mem_map.mp hm
    rcases List.mem_append.mp hslot with hslot | hslot
    · obtain ⟨y, hy, rfl⟩ := List.mem_map.mp hslot
      obtain rfl := Option.some.inj hs
      exact fun hm => hb.2 ((mem_strtok hy).2.2 hm)
    · split at hslot
      · rw [List.mem_singleton.mp hslot] at hs
        obtain rfl := Option.some.inj hs
        decide
      · cases hslot

/-- The number that is sent for the flags. -/
def spamNumber (cd : Device) : BitVec 32 := if cd.spamhandler then 1 else if cd.changehandler then 2 else 0

/-- Strings that are not cut are read as they are. -/
theorem modArgs_eq {cd : Device} {name : Str} {tags : List Str} (h : Named cd name tags) (hu : Uncut cd) :
    modArgs F cd name tags = ⟨.uid, cd.uid⟩ :: ⟨.name, name⟩ ::
      (settingFields F cd (lastHargs cd.hargs.items tags) (stripLast tags)).map (fieldArg F) := by
  have hcr : ∀ u, Bare (u ++ [chCr]) → Bare u := fun u hb =>
    ⟨fun hm => hb.1 (List.mem_append_left _ hm), fun hm => hb.2 (List.mem_append_left _ hm)⟩
  have hhargs : ∀ a ∈ cd.hargs.items, Bare a := fun a ha => ⟨(h.hargsText ha).2.1, hu.hargs a ha⟩
  have htags : ∀ a ∈ tags, Bare a := fun a ha => ⟨(h.tagsText ha).2.1, hu.tags a (by rwa [h.tagTexts])⟩
  have hlast : ∀ a ∈ lastHargs cd.hargs.items tags, Bare a := by
    unfold lastHargs
    split
    · exact forall_stripLast hcr hhargs
    · exact hhargs
  have hfields := @forall_settingFields F _ Numeral.bare bare_join cd (fun r hr => ⟨(h.rrdnameText hr).2.1, hu.rrdname r hr⟩)
    (fun p hp => ⟨(h.handlerText hp).2.1, hu.handler p hp⟩) _ _ hlast (forall_stripLast hcr htags)
  rw [modArgs, readArgs_headed F ⟨h.uidText.2.1, hu.uid⟩ (.of_notMem h.nameText.2.1 (hu.name name h.name)),
    (spaced_settingText F cd (lastHargs cd.hargs.items tags) (stripLast tags)).readArgs F hfields]

/-- The arguments of settings. -/
theorem lastArg_settings (cd : Device) (name : Str) (hargs tags : List Str) :
    let args := ⟨.uid, cd.uid⟩ :: ⟨.name, name⟩ :: (settingFields F cd hargs tags).map (fieldArg F)
    lastArg .uid args = some cd.uid ∧ lastArg .name args = some name ∧ lastArg .rrdname args = cd.rrdname ∧
      lastArg .handler args = cd.handler ∧ lastArg .spam args = cd.handler.map (fun _ => spamNumber cd) ∧
        lastArg .lowat args = some (F.strtod (printData F cd .lowat id)) ∧
          lastArg .hiwat args = some (F.strtod (printData F cd .hiwat id)) ∧
            lastArg .hargs args = (if hargs = [] then none else some (join chComma hargs)) ∧
              lastArg .tags args = (if tags = [] then none else some (join chComma tags)) := by
  have hspam : atoi (spamSetting cd) = spamNumber cd := by
    unfold spamSetting spamNumber
    split
    · decide
    · split <;> decide
  unfold settingFields headFields listField
  cases cd.rrdname <;> cases cd.handler <;> split <;> split <;> split <;>
    simp [fieldArg, lastArg, PArg.as, readValue, hspam]

/-! ## Lists -/

theorem filter_eq_iff {l l' : List Str} (hlen : l'.length = l.length) :
    l'.filter (fun a => !a.isEmpty) = l ↔ l' = l ∧ ∀ a ∈ l, a ≠ [] := by
  constructor
  · intro h
    have hall := List.length_filter_eq_length_iff.mp (by rw [h, hlen])
    rw [List.filter_eq_self.mpr hall] at h
    exact ⟨h, fun a ha => by simpa using hall a (h ▸ ha)⟩
  · rintro ⟨rfl, h⟩
    exact List.filter_eq_self.mpr fun a ha => by simpa using h a ha

/-- A list in the middle of a line comes back. -/
theorem strtok_join_iff {l : List Str} (hc : ∀ a ∈ l, chComma ∉ a) : strtok chComma (join chComma l) = l ↔ ∀ a ∈ l, a ≠ [] := by
  rw [strtok_join_filter hc, filter_eq_iff rfl, and_iff_right rfl]

theorem comma_stripLast {l : List Str} (hc : ∀ a ∈ l, chComma ∉ a) : ∀ a ∈ stripLast l, chComma ∉ a :=
  forall_stripLast (fun _ hu hm => hu (List.mem_append_left _ hm)) hc

/-- A list at the end of a line comes back. -/
theorem strtok_stripLast_iff {l : List Str} (hc : ∀ a ∈ l, chComma ∉ a) :
    strtok chComma (join chComma (stripLast l)) = l ↔
      (∀ a ∈ l, a ≠ []) ∧ ∀ a, l.getLast? = some a → a.getLast? ≠ some chCr := by
  rw [strtok_join_filter (comma_stripLast hc), filter_eq_iff (length_stripLast l), stripLast_eq_self_iff, and_comm]

theorem map_tagSlots (toks : List Str) :
    (tagSlots toks).map Tag.str? = (toks ++ if toks.length % 2 = 1 then [str "junk"] else []).map some := by
  unfold tagSlots
  split <;> simp [Tag.str?]

/-- Tags come back, without one that makes them even. -/
theorem slots_stripLast_iff {l : List Str} (hc : ∀ a ∈ l, chComma ∉ a) :
    (tagSlots (strtok chComma (join chComma (stripLast l)))).map Tag.str? = l.map some ↔
      ((∀ a ∈ l, a ≠ []) ∧ l.length % 2 = 0) ∧ ∀ a, l.getLast? = some a → a.getLast? ≠ some chCr := by
  rw [map_tagSlots, (List.map_injective_iff.mpr (Option.some_injective _)).eq_iff, and_right_comm, ← strtok_stripLast_iff hc]
  generalize hs : strtok chComma (join chComma (stripLast l)) = toks
  constructor
  · intro h
    split at h
    · -- a tag that was lost cannot be the one that is added
      exfalso
      have hjunk : stripLast l = l := by
        rw [stripLast_eq_self_iff, ← h]
        intro a ha
        rw [List.getLast?_concat, Option.some.injEq] at ha
        rw [← ha]
        decide
      rw [hjunk, strtok_join_filter hc, ← h, List.filter_append] at hs
      have hlen := congrArg List.length hs
      have hsub : (toks.filter fun a => !a.isEmpty) = toks := by
        refine List.filter_eq_self.mpr fun a ha => ?_
        rw [← hs] at ha
        rcases List.mem_append.mp ha with ha | ha
        · exact (List.mem_filter.mp ha).2
        · exact (List.mem_filter.mp ha).2
      rw [hsub, List.length_append] at hlen
      have hone : ([str "junk"].filter fun a => !a.isEmpty).length = 1 := by decide
      omega
    · rename_i hodd
      rw [List.append_nil] at h
      rw [h] at hodd
      exact ⟨h, by omega⟩
  · rintro ⟨rfl, h⟩
    rw [if_neg (by omega), List.append_nil]

/-! ## The round trip -/

/-- A device that executed the line has the settings exactly when they settle. -/
theorem sameSettings_iff {cd : Device} {name : Str} {tags : List Str} (h : Named cd name tags) (hu : Uncut cd)
    {dev dev' : Device} (ht : dev.type = cd.type) (hst : dev.subtype = cd.subtype)
    (he : Edited F (modArgs F cd name tags) dev dev') : SameSettings F cd dev' ↔ Settles F cd dev := by
  obtain ⟨-, hn, hr, hh, hspam, hlo, hhi, ha, hg⟩ :=
    lastArg_settings F cd name (lastHargs cd.hargs.items tags) (stripLast tags)
  rw [← modArgs_eq F h hu] at hn hr hh hspam hlo hhi ha hg
  have htags := readTags_ok.mp h.tags
  have hcd : cd.tags.items = [] ↔ tags = [] := by
    rw [← List.map_eq_nil_iff (f := Tag.str?), htags, List.map_eq_nil_iff]
  have hlen : cd.tags.items.length = tags.length := by simpa using congrArg List.length htags
  have hcomma : ∀ a ∈ cd.hargs.items, chComma ∉ a := fun a ha => (h.hargsText ha).2.2
  have hname : dev'.name = cd.name := by rw [he.name, hn, h.name, Option.some_or]
  have hrrd : dev'.rrdname = cd.rrdname ↔ (cd.rrdname = none → dev.rrdname = none) := by
    rw [he.rrdname, hr, or_eq_left_iff]
  have hhand : dev'.handler = cd.handler ↔ (cd.handler = none → dev.handler = none) := by
    rw [he.handler, hh, or_eq_left_iff]
  have hflags : dev'.spamhandler = cd.spamhandler ∧ dev'.changehandler = cd.changehandler ↔
      (cd.handler = none → dev.spamhandler = cd.spamhandler ∧ dev.changehandler = cd.changehandler) ∧
        (cd.handler ≠ none → ¬ (cd.spamhandler = true ∧ cd.changehandler = true)) := by
    cases hp : cd.handler with
    | none =>
      obtain ⟨h1, h2⟩ := he.flagsKept (by rw [hspam, hp]; rfl)
      rw [h1, h2]
      simp
    | some p =>
      obtain ⟨h1, h2⟩ := he.flags (spamNumber cd) (by rw [hspam, hp]; rfl) (by
        unfold spamNumber
        split
        · decide
        · split <;> decide)
      rw [h1, h2]
      unfold spamNumber
      cases cd.spamhandler <;> cases cd.changehandler <;> simp
  have hhargs : dev'.hargs.items = cd.hargs.items ↔ (cd.hargs.items = [] → dev.hargs.items = []) ∧
      (∀ a ∈ cd.hargs.items, a ≠ []) ∧
        (tags = [] → ∀ a, cd.hargs.items.getLast? = some a → a.getLast? ≠ some chCr) := by
    rw [he.hargs, ha]
    unfold lastHargs
    by_cases hc : cd.hargs.items = []
    · have hnil : (if tags = [] then stripLast cd.hargs.items else cd.hargs.items) = [] := by
        rw [hc]
        split <;> rfl
      rw [if_pos hnil, hc]
      simp
    · by_cases htg : tags = []
      · rw [if_pos htg, if_neg (mt stripLast_eq_nil.mp hc)]
        change strtok chComma (join chComma (stripLast cd.hargs.items)) = cd.hargs.items ↔ _
        rw [strtok_stripLast_iff hcomma]
        simp [hc, htg]
      · rw [if_neg htg, if_neg hc]
        change strtok chComma (join chComma cd.hargs.items) = cd.hargs.items ↔ _
        rw [strtok_join_iff hcomma]
        simp [hc, htg]
  have hslots : dev'.tags.items.map Tag.str? = cd.tags.items.map Tag.str? ↔ (tags = [] → dev.tags.items = []) ∧
      ((∀ a ∈ tags, a ≠ []) ∧ tags.length % 2 = 0) ∧ ∀ a, tags.getLast? = some a → a.getLast? ≠ some chCr := by
    rw [he.tags, hg, htags]
    by_cases htg : tags = []
    · rw [htg]
      simp [stripLast]
    · rw [if_neg (mt stripLast_eq_nil.mp htg)]
      change (tagSlots (strtok chComma (join chComma (stripLast tags)))).map Tag.str? = _ ↔ _
      rw [slots_stripLast_iff fun a ha => (h.tagsText ha).2.2]
      simp [htg]
  have hlast : (∀ a, (cd.hargs.items ++ tags).getLast? = some a → a.getLast? ≠ some chCr) ↔
      (tags = [] → ∀ a, cd.hargs.items.getLast? = some a → a.getLast? ≠ some chCr) ∧
        ∀ a, tags.getLast? = some a → a.getLast? ≠ some chCr := by
    by_cases htg : tags = []
    · rw [htg]
      simp
    · rw [List.getLast?_append_of_ne_nil _ htg]
      simp [htg]
  -- the watermarks, by the member that both store
  have htypes : dev.devType = cd.devType ∧ dev.devSubtype = cd.devSubtype := by
    rw [Device.devType, ht, Device.devSubtype, hst]
    exact ⟨rfl, rfl⟩
  have hdata : datatypeDev dev = datatypeDev cd := by rw [datatypeDev, htypes.1, htypes.2, datatypeDev]
  have hlowat : ∀ m, storeMember cd.devType cd.devSubtype = some m →
      (m.value F dev'.lowat = m.sent F (m.value F cd.lowat) ↔ WaterArrives F cd m .lowat) := by
    intro m hm
    rw [he.lowat _ hlo m (by rw [htypes.1, htypes.2, hm]), hdata]
    exact waterArrives_iff F hm .lowat
  have hhiwat : ∀ m, storeMember cd.devType cd.devSubtype = some m →
      (m.value F dev'.hiwat = m.sent F (m.value F cd.hiwat) ↔ WaterArrives F cd m .hiwat) := by
    intro m hm
    rw [he.hiwat _ hhi m (by rw [htypes.1, htypes.2, hm]), hdata]
    exact waterArrives_iff F hm .hiwat
  constructor
  · intro hs
    obtain ⟨hk, hf⟩ := hflags.mp hs.flags
    obtain ⟨ha1, ha2, ha3⟩ := hhargs.mp hs.hargs
    obtain ⟨hg1, hg2, hg3⟩ := hslots.mp hs.tags
    refine ⟨hrrd.mp hs.rrdname, fun hc => ⟨hhand.mp hs.handler hc, hk hc⟩, hf, ha1, ha2, fun hc => hg1 (hcd.mp hc), ?_, ?_,
      fun m hm => ⟨(hlowat m hm).mp (hs.lowat m hm), (hhiwat m hm).mp (hs.hiwat m hm)⟩⟩
    · rw [h.tagTexts, hlen]
      exact hg2
    · rw [h.tagTexts]
      exact hlast.mpr ⟨ha3, hg3⟩
  · intro hs
    have htexts := hs.tags
    have hend := hs.last
    rw [h.tagTexts] at htexts hend
    rw [hlen] at htexts
    obtain ⟨hl1, hl2⟩ := hlast.mp hend
    exact ⟨hname, hrrd.mpr hs.rrdname, hhand.mpr fun hc => (hs.handler hc).1,
      hhargs.mpr ⟨hs.noHargs, hs.hargs, hl1⟩, hslots.mpr ⟨fun hc => hs.noTags (hcd.mpr hc), htexts, hl2⟩,
      hflags.mpr ⟨fun hc => (hs.handler hc).2, hs.flags⟩, fun m hm => (hlowat m hm).mpr (hs.water m hm).1,
      fun m hm => (hhiwat m hm).mpr (hs.water m hm).2⟩

/-- A configured device that the server knows has its settings there after the line when they fit; and where the server did not
have them before, only then. -/
theorem modifyArrives_iff {cd : Device} (hc : Configured cd) (hn : cd.name ≠ none) {s : Server} (hr : Registry s) {d : DevId}
    (hf : s.findDeviceByUid cd.uid = some d) (ht : (s.dev d).type = cd.type) (hst : (s.dev d).subtype = cd.subtype) (env : Env)
    (c : ClientId) :
    (ModifyFits F cd s d → ModifyArrives F env c cd s d) ∧
      (¬ SameSettings F cd (s.dev d) → ModifyArrives F env c cd s d → ModifyFits F cd s d) := by
  obtain ⟨name, hn⟩ := Option.ne_none_iff_exists'.mp hn
  constructor
  · intro hfit
    obtain ⟨tags, htags⟩ := exists_readTags.mpr hfit.written.1
    have hnamed : Named cd name tags := ⟨hc, hn, htags⟩
    have huid : lastArg .uid (modArgs F cd name tags) = some cd.uid := by
      rw [modArgs_eq F hnamed hfit.uncut]
      exact (lastArg_settings F cd name (lastHargs cd.hargs.items tags) (stripLast tags)).1
    have hmem : d ∈ s.alldevs := ((hr.found _ d).mp hf).1
    obtain ⟨r, hrun, -, hedit⟩ := cmdModify_known F c (s := s.mark c env) huid hf (hfit.written.2 d hmem) hfit.written.2
    exact (modifyArrives_iff_run F hnamed env c s d).mpr
      ⟨r, hrun, (sameSettings_iff F hnamed hfit.uncut ht hst hedit).mpr hfit.settles⟩
  · intro hnew harr
    obtain ⟨tags, htags⟩ : ∃ tags, readTags cd.tags.items = .ok tags := by
      obtain ⟨line, -, hline, -⟩ := harr
      unfold gnModifyDevice at hline
      rw [hn] at hline
      obtain ⟨tags, htags, -⟩ := Except.map_eq_ok.mp hline
      exact ⟨tags, htags⟩
    have hnamed : Named cd name tags := ⟨hc, hn, htags⟩
    obtain ⟨r, hrun, hsame⟩ := (modifyArrives_iff_run F hnamed env c s d).mp harr
    -- the line is about this device, since it changed
    have hline : ∃ uid, lastArg .uid (modArgs F cd name tags) = some uid ∧ s.findDeviceByUid uid = some d := by
      by_contra hno
      refine hnew ?_
      rw [cmdModify_elsewhere F hrun fun uid hu hfu => hno ⟨uid, hu, hfu⟩] at hsame
      exact hsame
    obtain ⟨uid, hu, hfu⟩ := hline
    obtain ⟨hmem, hud⟩ := (hr.found _ d).mp hf
    obtain ⟨dev, hsrv, hedit, hread, hall⟩ := cmdModify_wrote F (s := s.mark c env) hu hfu hrun
    rw [← ((hr.found _ d).mp hfu).2, hud] at hu
    have hself : r.srv.dev d = dev := by rw [hsrv, Server.modDev_dev, if_pos rfl]
    rw [hself] at hsame
    have huncut := uncut_of_sameSettings F hnamed hu hedit hsame
    refine ⟨⟨exists_readTags.mp ⟨tags, htags⟩, fun d' hd' => ?_⟩, huncut,
      (sameSettings_iff F hnamed huncut ht hst hedit).mp hsame⟩
    have hd' := hall d' hd'
    rw [Server.modDev_dev] at hd'
    split at hd'
    · rename_i he
      rw [he]
      exact hread.mpr hd'
    · exact hd'

/-- A lamp on the server, and with a handler at its collector. -/
def lamp : Device := { uid := str "lamp", name := some (str "Lamp"), rrdname := some (str "lamp"), type := 2, proto := 1, subtype := 1 }

theorem modifyArrives_iff_lamp :
    ModifyArrives Doubles.exact {} 0 { lamp with handler := some (str "/bin/notify"), hargs := .block [str "-v"], spamhandler := true }
      (oneDevice lamp) 0 := by
  refine (@modifyArrives_iff Doubles.exact
    { lamp with handler := some (str "/bin/notify"), hargs := .block [str "-v"], spamhandler := true } (by decide) (by decide)
    (oneDevice lamp) (registry_oneDevice rfl) 0 rfl rfl rfl {} 0).1
      ⟨⟨by decide, by decide⟩, ⟨by decide, ?_, ?_, ?_, by decide, by decide⟩,
        ⟨by decide, by decide, by decide, by decide, by decide, by decide, by decide, ?_, ?_⟩⟩
  · rintro name ⟨⟩
    decide
  · rintro r ⟨⟩
    decide
  · rintro h ⟨⟩
    decide
  · rintro a ⟨⟩
    decide
  · intro m hm
    cases hm
    exact ⟨Or.inl (by decide), Or.inl (by decide)⟩

/-- A handler with a blank in its path is cut there. -/
theorem not_modifyArrives_blank :
    ¬ ModifyArrives Doubles.exact {} 0 { lamp with handler := some (str "/bin/notify me") } (oneDevice lamp) 0 := by
  rintro ⟨line, r, hl, hr, hsame⟩
  have he : gnModifyDevice Doubles.exact { lamp with handler := some (str "/bin/notify me") } = .ok (some
      (str "mod uid:lamp name:\"Lamp\" rrdname:lamp  lowat:0.000000 hiwat:0.000000 handler:/bin/notify me spamhandler:0 \n")) := by
    decide +kernel
  rw [he] at hl
  rw [← Option.some.inj (Except.ok.inj hl)] at hr
  have hsrv : (handleLine Doubles.exact {} 0 (readLine
      (str "mod uid:lamp name:\"Lamp\" rrdname:lamp  lowat:0.000000 hiwat:0.000000 handler:/bin/notify me spamhandler:0 \n"))
        (oneDevice lamp)).map (fun r => (r.srv.dev 0).handler) = .ok (some (str "/bin/notify")) := by decide +kernel
  obtain ⟨r', hr', hd⟩ := Except.map_eq_ok.mp hsrv
  have hrr : r' = r := Except.ok.inj (hr'.symm.trans hr)
  rw [← hrr] at hsame
  have hh := hsame.handler
  rw [hd] at hh
  exact absurd hh (by decide)

end Gnhast
