import Gnhast.Lemmas.Faults
import Gnhast.Lemmas.Groups
import Gnhast.Lemmas.Health
import Gnhast.Lemmas.Modify
import Gnhast.Lib.Faults

/-!
# What a handler reads and writes

A handler is safe when it reads no string that is not there, follows no pointer that was never assigned and stays inside its
buffers. For each handler that can fail at one of these, a lemma says exactly when it does not; the others always leave a reply.
-/

namespace Gnhast

open CStr Faults

variable (F : Doubles)

/-- The faults of pointers and buffers. -/
def Fault.OfMemory (fault : Fault) : Prop := fault ≠ .arithmetic

/-- A computation without a fault of pointers or buffers. -/
abbrev MemSafe {α : Type} (x : Except Fault α) : Prop := Avoids Fault.OfMemory x

/-- A computation that ends exactly under a condition, and otherwise has such a fault. -/
abbrev MemSafeWhen {α : Type} (p : Prop) (x : Except Fault α) : Prop := Settles Fault.OfMemory p x

theorem nullString_ofMemory : Fault.nullString.OfMemory := nofun

theorem uninitialised_ofMemory : Fault.uninitialised.OfMemory := nofun

theorem bufferOverflow_ofMemory : Fault.bufferOverflow.OfMemory := nofun

/-! ## Updates -/

/-- What `gn_update_device` reads of a device that it prints is there. -/
def Device.Prints (dev : Device) (what : BitVec 32) : Prop :=
  dev.Complete →
    if queryBit what gncUpdCacti then dev.rrdname ≠ none
    else (queryBit what gncUpdTags || queryBit what gncUpdFull) = true → dev.Readable

theorem settles_readTags (ts : List Tag) : MemSafeWhen (∀ t ∈ ts, t ≠ .unset) (readTags ts) := by
  induction ts with
  | nil => exact settles_ok (by simp) _
  | cons t ts ih =>
    unfold readTags
    cases t with
    | unset => exact settles_error (by simp) uninitialised_ofMemory
    | text s => exact (ih.congr (by simp)).map _
    | junk => exact (ih.congr (by simp)).map _

theorem settles_gnUpdateDevice (dev : Device) (what : BitVec 32) : MemSafeWhen (dev.Prints what) (gnUpdateDevice F dev what) := by
  by_cases hc : dev.Complete
  · obtain ⟨name, hn⟩ := Option.ne_none_iff_exists'.mp hc.name
    have hz : ¬ (dev.type = 0 ∨ dev.subtype = 0 ∨ dev.proto = 0) := by
      rintro (h | h | h)
      · exact hc.type h
      · exact hc.subtype h
      · exact hc.proto h
    unfold Device.Prints gnUpdateDevice
    simp only [hn, if_neg hz, hc, true_implies]
    by_cases hcacti : queryBit what gncUpdCacti = true
    · rw [if_pos hcacti, if_pos hcacti]
      cases hr : dev.rrdname with
      | none => exact settles_error (fun h => h rfl) nullString_ofMemory
      | some r => exact settles_ok (Option.some_ne_none r) _
    · rw [if_neg hcacti, if_neg hcacti]
      refine Settles.map ?_ _
      by_cases hread : (queryBit what gncUpdTags || queryBit what gncUpdFull) = true
      · rw [if_pos hread]
        exact (settles_readTags _).congr ⟨fun h _ => h, fun h => h hread⟩
      · rw [if_neg hread]
        exact settles_ok (fun h => absurd h hread) _
  · rw [gnUpdateDevice_incomplete F hc]
    exact settles_ok (fun h => absurd h hc) _

/-! ## Questions -/

/-- The search of `cmd_list_groups` compares the uid that was asked for also where only a name was. -/
theorem settles_listGroups {s : Server} (uid name : Option Str) (c : ClientId) {gs : List GroupId}
    (hn : ∀ g ∈ gs, (s.group g).name ≠ none) :
    MemSafeWhen (name = none ∨ uid ≠ none ∨ gs = []) (listGroups uid name c s gs) := by
  induction gs with
  | nil => exact settles_ok (Or.inr (Or.inr rfl)) _
  | cons g gs ih =>
    have ih := ih fun g' hg' => hn g' (List.mem_cons_of_mem _ hg')
    unfold listGroups
    cases name with
    | none =>
      have ih : MemSafeWhen ((none : Option Str) = none ∨ uid ≠ none ∨ g :: gs = []) (listGroups uid none c s gs) :=
        ih.congr (by simp)
      split
      · exact ih
      · rw [if_pos rfl]
        exact ih.map _
    | some name =>
      cases uid with
      | none =>
        rw [if_neg (by simp), if_neg (by simp)]
        exact settles_error (by simp) nullString_ofMemory
      | some u =>
        have ih : MemSafeWhen (some name = none ∨ some u ≠ none ∨ g :: gs = []) (listGroups (some u) (some name) c s gs) :=
          ih.congr (by simp)
        obtain ⟨n, hg⟩ := Option.ne_none_iff_exists'.mp (hn g List.mem_cons_self)
        split
        · exact ih
        · rw [if_neg (Option.some_ne_none name), hg]
          dsimp only
          split
          · exact ih
          · exact ih.map _

/-- The flags of an update with the scale that was asked for. -/
def scaledWhat (what : BitVec 32) (args : List PArg) (dev : Device) : BitVec 32 :=
  what ||| gncUpdScale ((lastArg .scale args : Option (BitVec 32)).getD (dev.scale.setWidth 32))

/-- A condition on the device that a line names last. -/
def OnDevice (args : List PArg) (s : Server) (p : DevId → Prop) : Prop :=
  ∀ uid d, lastArg .uid args = some uid → s.findDeviceByUid uid = some d → p d

theorem onDevice_iff {args : List PArg} {s : Server} {d : DevId} {p : DevId → Prop}
    (h : (lastArg .uid args : Option Str).bind s.findDeviceByUid = some d) : OnDevice args s p ↔ p d := by
  obtain ⟨uid, hu, hf⟩ := Option.bind_eq_some_iff.mp h
  constructor
  · exact fun hp => hp uid d hu hf
  · intro hp uid' d' hu' hf'
    rw [hu, Option.some.injEq] at hu'
    subst hu'
    rw [hf, Option.some.injEq] at hf'
    exact hf' ▸ hp

theorem onDevice_of_none {args : List PArg} {s : Server} {p : DevId → Prop}
    (h : (lastArg .uid args : Option Str).bind s.findDeviceByUid = none) : OnDevice args s p := by
  intro uid d hu hf
  rw [hu, Option.bind_some, hf] at h
  cases h

theorem settles_cmdAskDevice (args : List PArg) (c : ClientId) (s : Server) :
    MemSafeWhen (OnDevice args s fun d => (s.dev d).Prints (scaledWhat (askFlags args) args (s.dev d)))
      (cmdAskDevice F args c s) := by
  unfold cmdAskDevice
  split
  · rename_i h
    exact settles_ok (onDevice_of_none h) _
  · rename_i d h
    refine Settles.map (Settles.congr (settles_gnUpdateDevice F _ _) ?_) _
    rw [onDevice_iff h]
    rfl

theorem settles_askFull (c : ClientId) (s : Server) (uids : List Str) :
    MemSafeWhen (∀ uid ∈ uids, ∀ d, s.findDeviceByUid uid = some d → (s.dev d).Prints gncUpdFull) (askFull F c s uids) := by
  induction uids with
  | nil => exact settles_ok (by simp) _
  | cons uid uids ih =>
    unfold askFull
    cases hf : s.findDeviceByUid uid with
    | none => exact ih.congr (by simp [hf])
    | some d =>
      refine ((settles_gnUpdateDevice F (s.dev d) gncUpdFull).bind fun line _ => ih.bind fun out _ =>
        settles_ok (p := True) trivial _).congr ?_
      simp [hf]

theorem mem_allArgs_of_lastArg {k : Sc} {args : List PArg} {v : k.type.Carrier} (h : lastArg k args = some v) :
    v ∈ allArgs k args := by
  induction args with
  | nil => cases h
  | cons a args ih =>
    rw [lastArg_cons, Option.or_eq_some_iff] at h
    unfold allArgs
    rcases h with h | ⟨-, h⟩
    · exact List.mem_filterMap.mpr ((List.mem_filterMap.mp (ih h)).imp fun x hx => ⟨List.mem_cons_of_mem _ hx.1, hx.2⟩)
    · exact List.mem_filterMap.mpr ⟨a, List.mem_cons_self, h⟩

/-- A line with an uid that is not known. -/
def NamesUnknown (args : List PArg) (s : Server) : Prop := ∃ uid ∈ allArgs .uid args, s.findDeviceByUid uid = none

/-- Without an uid, `cmd_cactiask_device` follows the pointer it never assigned. -/
theorem settles_cmdCactiaskDevice (args : List PArg) (c : ClientId) (s : Server) :
    MemSafeWhen (¬ NamesUnknown args s → lastArg .uid args ≠ none ∧
      OnDevice args s fun d => (s.dev d).Prints (scaledWhat gncUpdCacti args (s.dev d))) (cmdCactiaskDevice F args c s) := by
  have hany : (allArgs .uid args).any (fun uid : Str => (s.findDeviceByUid uid).isNone) = true ↔ NamesUnknown args s := by
    simp [NamesUnknown, List.any_eq_true]
  unfold cmdCactiaskDevice
  by_cases hn : NamesUnknown args s
  · rw [if_pos (hany.mpr hn)]
    exact settles_ok (fun h => absurd hn h) _
  · rw [if_neg fun h => hn (hany.mp h)]
    split
    · rename_i h
      refine settles_error (fun hp => ?_) uninitialised_ofMemory
      obtain ⟨uid, hu⟩ := Option.ne_none_iff_exists'.mp (hp hn).1
      rw [hu, Option.bind_some] at h
      exact hn ⟨uid, mem_allArgs_of_lastArg hu, h⟩
    · rename_i d h
      refine Settles.map (Settles.congr (settles_gnUpdateDevice F _ _) ?_) _
      obtain ⟨uid, hu, -⟩ := Option.bind_eq_some_iff.mp h
      rw [onDevice_iff h]
      exact ⟨fun hp _ => ⟨by simp [hu], hp⟩, fun hp => (hp hn).2⟩

/-! ## Tracking devices -/

/-- The names of a tracking device fit in the buffers of `cmd_client`. -/
structure NamesFit (cl : Client) (cli : Str) (s : Server) : Prop where
  uid : (trackUid cl cli).length < uidSize
  name : s.findDeviceByUid (trackUid cl cli) = none → (trackName cli (cl.host.getD (str "unknown"))).length < bufSize
  rrdname : s.findDeviceByUid (trackUid cl cli) = none → (trackRrdname cli (cl.host.getD (str "unknown"))).length < bufSize

theorem settles_sprintf (size : Nat) (text : Str) : MemSafeWhen (text.length < size) (sprintf size text) := by
  unfold sprintf
  split
  · rename_i h
    exact settles_ok h _
  · rename_i h
    exact settles_error h bufferOverflow_ofMemory

theorem sprintf_eq_ok {size : Nat} {text t : Str} (h : sprintf size text = .ok t) : t = text := by
  unfold sprintf at h
  split at h
  · cases h
    rfl
  · cases h

theorem settles_cmdClient (env : Env) {args : List PArg} {c : ClientId} {s : Server}
    (hh : ((s.client c).host.getD (str "unknown")).length < cliaddrSize) :
    MemSafeWhen (∀ cli, lastArg .client args = some cli → cli ≠ str "handler" → NamesFit (s.client c) cli s)
      (cmdClient F env args c s) := by
  unfold cmdClient
  cases hc : (lastArg .client args : Option Str) with
  | none => exact settles_ok (fun cli hcli => by cases hcli) _
  | some cli =>
    dsimp only
    refine ((settles_sprintf _ _).bind (q := cli ≠ str "handler" → NamesFit (s.client c) cli s) fun cliaddr hca => ?_).congr ?_
    · rw [sprintf_eq_ok hca]
      split
      · rename_i he
        exact settles_ok (fun h => absurd he h) _
      · rename_i he
        refine ((settles_sprintf _ _).bind (q := s.findDeviceByUid (trackUid (s.client c) cli) = none →
          (trackName cli ((s.client c).host.getD (str "unknown"))).length < bufSize ∧
            (trackRrdname cli ((s.client c).host.getD (str "unknown"))).length < bufSize) fun uid huid => ?_).congr ?_
        · rw [sprintf_eq_ok huid]
          split
          · rename_i hf
            refine ((settles_sprintf _ _).bind fun name _ => (settles_sprintf _ _).bind fun buf _ =>
              settles_ok (p := True) trivial _).congr ?_
            rw [and_true]
            exact ⟨fun h _ => h, fun h => h hf⟩
          · rename_i d hf
            refine settles_ok (fun hf' => ?_) _
            rw [show trackUid (s.client c) cli = cli ++ str "-" ++ (s.client c).host.getD (str "unknown") from rfl, hf] at hf'
            cases hf'
        · exact ⟨fun h _ => ⟨h.1, fun hf => (h.2 hf).1, fun hf => (h.2 hf).2⟩,
            fun h => ⟨(h he).uid, fun hf => ⟨(h he).name hf, (h he).rrdname hf⟩⟩⟩
    · constructor
      · rintro ⟨-, h⟩ cli' hcli
        cases hcli
        exact h
      · exact fun h => ⟨hh, h cli rfl⟩

/-! ## Changes -/

theorem settles_freeTags (ts : List Tag) : MemSafeWhen (∀ t ∈ ts, t ≠ .unset) (freeTags ts) := by
  induction ts with
  | nil => exact settles_ok (by simp) _
  | cons t ts ih =>
    unfold freeTags
    cases t with
    | unset => exact settles_error (by simp) uninitialised_ofMemory
    | text s => exact ih.congr (by simp)
    | junk => exact (ih.congr (by simp)).map _

theorem settles_modifyArg (dev : Device) (a : PArg) : MemSafeWhen (a.cword = .tags → dev.Readable) (modifyArg F dev a) := by
  unfold modifyArg
  split
  case h_7 v =>
    refine Settles.map ?_ _
    unfold parseTags
    refine Settles.map ((settles_freeTags dev.tags.items).congr ?_) _
    exact ⟨fun h _ => h, fun h => h rfl⟩
  case h_9 =>
    rename_i htags _
    refine settles_ok (fun ha => ?_) _
    obtain ⟨k, v⟩ := a
    dsimp only at ha
    subst ha
    exact (htags v rfl).elim
  all_goals exact settles_ok nofun _

/-- The arguments need the slots of the device only to free them. -/
theorem settles_modifyArgs (dev : Device) (args : List PArg) :
    MemSafeWhen ((∃ a ∈ args, a.cword = .tags) → dev.Readable) (modifyArgs F dev args) := by
  induction args generalizing dev with
  | nil => exact settles_ok (by simp) _
  | cons a args ih =>
    unfold modifyArgs
    refine ((settles_modifyArg F dev a).bind (q := (∃ a ∈ args, a.cword = .tags) → dev.Readable) fun r hr => ?_).congr ?_
    · refine ((ih r.1).bind fun r' _ => settles_ok (p := True) trivial _).congr ?_
      rw [and_true, readable_modifyArg F hr]
    · simp only [List.mem_cons, exists_eq_or_imp, or_imp]

theorem settles_readAllTags (s : Server) (ds : List DevId) :
    MemSafeWhen (∀ d ∈ ds, (s.dev d).Readable) (readAllTags s ds) := by
  induction ds with
  | nil => exact settles_ok (by simp) _
  | cons d ds ih =>
    unfold readAllTags
    exact ((settles_readTags (s.dev d).tags.items).bind fun _ _ => ih).congr (by simp [Device.Readable])

/-- `cmd_modify` writes out the configuration of all devices, and needs the slots of them all. -/
theorem settles_cmdModify {s : Server} (hr : Registry s) (args : List PArg) (c : ClientId) :
    MemSafeWhen (OnDevice args s fun _ => ∀ d ∈ s.alldevs, (s.dev d).Readable) (cmdModify F args c s) := by
  unfold cmdModify
  cases hu : (lastArg .uid args : Option Str) with
  | none => exact settles_ok (onDevice_of_none (by rw [hu, Option.bind_none])) _
  | some uid =>
    dsimp only
    cases hf : s.findDeviceByUid uid with
    | none => exact settles_ok (onDevice_of_none (by rw [hu, Option.bind_some, hf])) _
    | some d =>
      have hd : d ∈ s.alldevs := ((hr.found uid d).mp hf).1
      refine ((settles_modifyArgs F (s.dev d) args).bind (q := ∀ d ∈ s.alldevs, (s.dev d).Readable) fun r h1 => ?_).congr ?_
      · have hread : (∀ d' ∈ s.alldevs, ((s.modDev d fun _ => r.1).dev d').Readable) ↔ ∀ d ∈ s.alldevs, (s.dev d).Readable := by
          refine forall₂_congr fun d' _ => ?_
          rw [Server.modDev_dev]
          split
          · rename_i he
            rw [readable_modifyArgs F h1, he]
          · rfl
        refine (((settles_readAllTags _ _).map _).bind fun dump _ => ?_ : MemSafeWhen (_ ∧ True) _).congr ?_
        · split
          · exact settles_ok trivial _
          · exact settles_ok trivial _
        · rw [and_true]
          exact hread
      · rw [onDevice_iff (d := d) (by rw [hu, Option.bind_some, hf])]
        exact ⟨fun h => h.2, fun h => ⟨fun _ => h d hd, h⟩⟩

/-! ## Feeds -/

theorem memSafe_gcd (a b : Int) : MemSafe (gcd a b) := by
  fun_induction gcd a b with
  | case1 b => exact avoids_ok b
  | case2 a b ha h =>
    rintro _ he hm
    cases he
    exact hm rfl
  | case3 a b ha h ih => exact ih

theorem memSafe_gcdRates (g : Int) (ws : List WrapFeed) : MemSafe (gcdRates g ws) := by
  induction ws generalizing g with
  | nil => exact avoids_ok g
  | cons w ws ih => exact avoids_bind (memSafe_gcd _ g) fun lc _ => ih lc

/-- Only the greatest common divisor of the rates can stop `cmd_feed`. -/
theorem memSafe_cmdFeed (args : List PArg) (c : ClientId) (s : Server) : MemSafe (cmdFeed args c s) := by
  unfold cmdFeed
  dsimp only
  split
  · exact avoids_ok _
  · split
    · exact avoids_ok _
    · split
      · exact avoids_bind (memSafe_gcdRates _ _) fun g _ => avoids_ok _
      · exact avoids_ok _

/-! ## Addresses -/

/-- The addresses of all clients, connected or not, are short. -/
def HostsShort (s : Server) : Prop := ∀ c, ∀ h ∈ (s.client c).host, h.length ≤ hostMax

theorem HostsShort.fits {s : Server} (h : HostsShort s) (c : ClientId) :
    ((s.client c).host.getD (str "unknown")).length < cliaddrSize := by
  cases hc : (s.client c).host with
  | none => decide
  | some host =>
    have hle := h c host hc
    exact Nat.lt_of_le_of_lt hle (by decide)

theorem HostsShort.of_host {s s' : Server} (h : HostsShort s) (hs : ∀ c, (s'.client c).host = (s.client c).host) :
    HostsShort s' := by
  intro c
  rw [hs]
  exact h c

theorem host_claimDevice (s : Server) (d : DevId) (c c' : ClientId) :
    ((claimDevice s d c).client c').host = (s.client c').host := by
  rw [claimDevice_client]
  split
  · rename_i he
    rw [he]
  · rfl

theorem host_bufErrorCb (env : Env) (c : ClientId) (s : Server) (c' : ClientId) :
    ((bufErrorCb F env c s).client c').host = (s.client c').host := by
  rw [Client.field_of_core Client.host (fun _ => rfl) (bufErrorCb_client F env c s c')]
  split <;> rfl

theorem hostsShort_act {e : Event} {s s' : Server} (h : HostsShort s) (ha : Act F e s s') : HostsShort s' := by
  cases ha with
  | none => exact h
  | @connect _ _ cl hp hd hh =>
    intro c
    change ∀ host ∈ (Function.update s.client s.nextClient cl c).host, _
    by_cases hc : c = s.nextClient
    · rw [hc, Function.update_self]
      exact hh
    · rw [Function.update_of_ne hc]
      exact h c
  | create hl hu hf hd =>
    refine h.of_host fun c => ?_
    rw [create_eq hf rfl]
    exact host_claimDevice _ _ _ c
  | claim hl hu hf => exact h.of_host (host_claimDevice _ _ _)
  | regroup hl =>
    refine h.of_host fun c => ?_
    rw [(onlyGroups_cmdRegisterGroup _ _ s).client]
  | modify hl hf hm => exact h
  | watch hl hf => exact h.of_host (Quiet.modClient (Server.modDev s _ _) _ rfl).host
  | track hl hf ht =>
    refine h.of_host fun c => ?_
    rw [track_eq hf ht.onqAll]
  | close => exact h.of_host (host_bufErrorCb F _ _ s)
  | drained => exact h.of_host (host_bufErrorCb F _ _ s)

theorem hostsShort_step {s s' : Server} {e : Event} (h : HostsShort s) (hs : step F s e = some s') : HostsShort s' := by
  obtain ⟨s₁, s₂, h1, ha, h2⟩ := (does_step F hs).2
  exact (hostsShort_act F (h.of_host h1.host) ha).of_host h2.host

theorem client_insertDevice (s : Server) (d : DevId) : (s.insertDevice d).client = s.client := by
  unfold Server.insertDevice
  dsimp only
  split <;> rfl

theorem client_initDevtable (confs : List DeviceConf) (s : Server) : (initDevtable F confs s).client = s.client := by
  induction confs generalizing s with
  | nil => rfl
  | cons conf confs ih =>
    unfold initDevtable
    dsimp only
    rw [ih, client_insertDevice]

theorem startup_hostsShort {cfg : Config} {s : Server} (h : startup F cfg = .ok s) : HostsShort s := by
  intro c host hh
  rw [(onlyGroups_parseDevgroups h).client, client_initDevtable] at hh
  cases hh

end Gnhast
