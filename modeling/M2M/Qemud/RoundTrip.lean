import M2M.Qemud.Restoring
import M2M.Qemud.Transport

/-! What `qemud_save` writes in one emulator and `qemud_load` reads in another one. -/

open M2M.Lib

namespace M2M.Qemud

/-- Services that can be registered: their names are C strings, and no two are the same. -/
structure Registered (services : List (CString × Int32)) : Prop where
  nodup : (services.map Prod.fst).Nodup
  isName : ∀ name ∈ services.map Prod.fst, IsName name
  few : (services.map Prod.fst).length < 2 ^ 31

namespace QemudMultiplexer

variable {ω δ : Type}

/-- The states that a multiplexer comes to: it reads what the guest sends, its services do
something for their clients or change their data on their own, and it loads snapshots. -/
inductive Reachable (code : ServiceCode ω δ) (services : List (CString × Int32)) :
    QemudMultiplexer ω δ → Prop
  | init (data : δ) : Reachable code services (init services data)
  | read {m m' : QemudMultiplexer ω δ} (msg : List UInt8) (h : Reachable code services m)
      (hm' : (receiver code).serialRead m msg = some m') : Reachable code services m'
  | command {m m' : QemudMultiplexer ω δ} {id : Nat} (command : Command)
      (h : Reachable code services m) (hne : id ≠ 0)
      (hm' : m.runCommand code id command = some m') : Reachable code services m'
  | clientData {m : QemudMultiplexer ω δ} {id : Nat} {c : QemudClient ω} {name : CString} {opq : ω}
      (opq' : ω) (h : Reachable code services m) (hc : m.client id = some c)
      (hs : c.service = some (name, opq)) :
      Reachable code services (m.setClient { c with service := some (name, opq') })
  | data {m : QemudMultiplexer ω δ} (data : δ) (h : Reachable code services m) :
      Reachable code services { m with data }
  | load {m m₀ m' : QemudMultiplexer ω δ} (h : Reachable code services m)
      (h₀ : Reachable code services m₀)
      (hm' : (m₀.load code qemudSaveVersion (m.save code)).run = some (.ok m')) :
      Reachable code services m'

variable {code : ServiceCode ω δ} {services : List (CString × Int32)} {names : List CString}
  {agree : ω → ω → Prop} {alike : List CString → δ → δ → Prop} {m m₀ m' : QemudMultiplexer ω δ}
  {ρ : Nat → Nat}

section Runs

theorem LoadedFrom.working {l : List (QemudClient ω)} (h : LoadedFrom ρ agree l m m₀ m')
    (hm : m.Working names) : m'.Working names := by
  refine hm.sameReading h.good ⟨?_, ?_⟩ ?_
  · rw [h.serial]
  · rw [h.serial]
  · have hfst := congrArg (List.map Prod.fst) h.services
    rw [List.map_map, List.map_map, List.map_map] at hfst
    exact hfst

theorem loads (hservices : Registered services)
    (hcode : Restores code (services.map Prod.fst) agree alike)
    (hm : m.Working (services.map Prod.fst)) (hm₀ : m₀.Working (services.map Prod.fst)) :
    ∃ m', (m₀.load code qemudSaveVersion (m.save code)).run = some (.ok m') ∧
      alike (services.map Prod.fst) m.data m'.data ∧
      LoadedFrom (readdress m m₀) agree (m.noncontrol.take (announced m.noncontrol.length))
        m m₀ m' :=
  load_of hcode hm hm₀ hservices.isName hservices.few rfl (map_readdress hm.toGood m₀ _ rfl)

theorem Reachable.working (hservices : Registered services)
    (hcode : Restores code (services.map Prod.fst) agree alike) (h : Reachable code services m) :
    m.Working (services.map Prod.fst) := by
  induction h with
  | init data => exact working_init hservices.nodup data
  | read msg _ hm' ih => exact ih.serialRead msg hm'
  | command command _ hne hm' ih => exact ih.runCommand hne hm'
  | clientData opq' _ hc hs ih => exact ih.setOpaque hc hs opq'
  | data data _ ih => exact ih.setData data
  | load _ _ hm' ih ih₀ =>
    obtain ⟨m₁, hm₁, -, hloaded⟩ := loads hservices hcode ih ih₀
    obtain rfl := Except.ok.inj (Option.some.inj (hm₁.symm.trans hm'))
    exact hloaded.working ih

end Runs

section Property

def partPayload (c : QemudClient ω) : Option (Nat × List UInt8) :=
  if c.needHeader then none else some (c.payload.size, c.buff.take c.payload.used)

/-- A client that is as another one was, under a new address. -/
structure Resumes (ρ : Nat → Nat) (c c' : QemudClient ω) : Prop where
  id : c'.id = ρ c.id
  channel : c'.channel = c.channel
  serviceName : c'.serviceName = c.serviceName
  framing : c'.framing = c.framing
  header : c'.header0.take c'.header.used = c.header0.take c.header.used
  payload : partPayload c' = partPayload c

/-- The same clients, under new addresses. -/
structure SameClients (ρ : Nat → Nat) (m m' : QemudMultiplexer ω δ) : Prop where
  length : m'.noncontrol.length = m.noncontrol.length
  resumes : ∀ c ∈ m.noncontrol, ∃ c' ∈ m'.noncontrol, Resumes ρ c c'

/-- The services count their clients. -/
def Counted (m : QemudMultiplexer ω δ) : Prop :=
  ∀ sv ∈ m.services, sv.numClients = .ofNat (countOf m.clients sv.name)

/-- The same callbacks for everything that is received. -/
def SameCallbacks (code : ServiceCode ω δ) (ρ : Nat → Nat) (m m' : QemudMultiplexer ω δ) : Prop :=
  ∀ chunks : List (List UInt8), Option.Rel
    (fun t t' => ∃ calls, t.calls = m.calls ++ calls ∧
      t'.calls = m'.calls ++ calls.map (Call.rename ρ))
    (chunks.foldlM (receiver code).serialRead m) (chunks.foldlM (receiver code).serialRead m')

/-- What a snapshot of `m` does not lose in `m₀`. -/
structure Resumable (m m₀ : QemudMultiplexer ω δ) : Prop where
  few : m.noncontrol.length < 2 ^ 31
  whole : ∀ c ∈ m.noncontrol, Whole c
  counts : ∀ sv ∈ m.services, sv.numClients = .ofNat (countOf m₀.noncontrol sv.name)

end Property

section Laws

variable {c c' : QemudClient ω} {l : List (QemudClient ω)}

theorem restoredAs_same (h : RestoredAs ρ agree c c') :
    c'.id = ρ c.id ∧ c'.channel = c.channel ∧ c'.serviceName = c.serviceName ∧
      c'.framing = c.framing ∧ c'.header.used = 0 ∧ (c'.framing = false → c'.needHeader) := by
  obtain ⟨name, opq, opq', hs, -, rfl⟩ := h
  have hname := serviceName_restored (ρ c.id) opq' c
  cases hf : c.framing with
  | true =>
    rw [restored, hf, if_pos rfl] at hname ⊢
    exact ⟨rfl, rfl, hname, rfl, rfl, fun h => Bool.noConfusion h⟩
  | false =>
    rw [restored, hf, if_neg Bool.false_ne_true] at hname ⊢
    exact ⟨rfl, rfl, hname, rfl, rfl, fun _ => rfl⟩

theorem resumes_iff (hsound : c.Sound) (h : RestoredAs ρ agree c c') :
    Resumes ρ c c' ↔ Whole c := by
  obtain ⟨hid, hchannel, hname, hframing, hused, hneed⟩ := restoredAs_same h
  constructor
  · intro hresumes
    have hheader := hresumes.header
    rw [hused, List.take_zero] at hheader
    have hlength := congrArg List.length hheader
    have hle := hsound.headerUsed
    rw [List.length_nil, List.length_take, hsound.header0] at hlength
    refine ⟨by omega, fun hf => ?_⟩
    by_contra hmid
    have hpayload := hresumes.payload
    rw [partPayload, partPayload, if_pos (hneed (hframing.trans hf)), if_neg hmid] at hpayload
    cases hpayload
  · intro hwhole
    have htwin := twin_restored hsound hwhole h
    refine ⟨hid, hchannel, hname, hframing, ?_, ?_⟩
    · rw [htwin.header]
      exact htwin.header0
    · rw [partPayload, partPayload, htwin.needHeader]
      by_cases hmid : c.needHeader
      · rw [if_pos hmid, if_pos hmid]
      · have hmid' := (Bool.not_eq_true _).mp hmid
        have hle := (hsound.payloadUsed hmid').le
        have hbuff := congrArg (List.take c.payload.used) (htwin.buff hmid')
        rw [List.take_take, List.take_take, Nat.min_eq_left hle] at hbuff
        rw [if_neg hmid, if_neg hmid, htwin.payload hmid', hbuff]

theorem countOf_noncontrol (h : m.Good) (name : CString) :
    countOf m.noncontrol name = countOf m.clients name := by
  rw [countOf, countOf, noncontrol, List.countP_filter]
  refine List.countP_congr fun c hc => ?_
  rw [Bool.and_eq_true, decide_eq_true_eq, decide_eq_true_eq, and_iff_left_iff_imp]
  intro hname
  have hplaced := h.placed c hc
  rw [QemudClient.Placed] at hplaced
  cases hs : c.service with
  | none =>
    rw [QemudClient.serviceName, hs] at hname
    cases hname
  | some p =>
    rw [hs] at hplaced
    exact hplaced.1

theorem taken_pos {k : Nat} : ∀ c ∈ m.noncontrol.take k, 0 < c.channel :=
  fun _ hc => (mem_noncontrol.mp (List.mem_of_mem_take hc)).2

theorem LoadedFrom.noncontrol (h : LoadedFrom ρ agree l m m₀ m') (hl : ∀ c ∈ l, 0 < c.channel) :
    ∃ l', List.Forall₂ (RestoredAs ρ agree) l l' ∧ m'.noncontrol = l'.reverse := by
  obtain ⟨l', hl', hclients⟩ := h.clients
  refine ⟨l', hl', ?_⟩
  have hpos : ∀ c' ∈ l'.reverse, decide (0 < c'.channel) = true := by
    intro c' hc'
    obtain ⟨i, hi, rfl⟩ := List.getElem_of_mem (List.mem_reverse.mp hc')
    have hi' : i < l.length := hl'.length_eq ▸ hi
    have hrestored : RestoredAs ρ agree l[i] l'[i] := (List.forall₂_iff_get.mp hl').2 i hi' hi
    rw [(restoredAs_same hrestored).2.1]
    exact decide_eq_true (hl _ (List.getElem_mem hi'))
  rw [QemudMultiplexer.noncontrol, hclients, List.filter_append, List.filter_eq_self.mpr hpos]
  exact List.append_nil _

theorem countOf_restored {l' : List (QemudClient ω)} (h : List.Forall₂ (RestoredAs ρ agree) l l')
    (name : CString) : countOf l'.reverse name = countOf l name := by
  rw [countOf, List.countP_reverse]
  induction h with
  | nil => rfl
  | cons hc _ ih =>
    rw [List.countP_cons, ih, countOf, countOf, List.countP_cons, (restoredAs_same hc).2.2.1]

theorem sub_add_eq_iff (a b c : Int32) : a - b + c = c ↔ a = b := by
  constructor
  · intro h
    have hsub : a - b = 0 := by rw [← Int32.add_sub_cancel (a - b) c, h, Int32.sub_self]
    rw [← Int32.sub_add_cancel a b, hsub, Int32.zero_add]
  · rintro rfl
    rw [Int32.sub_self, Int32.zero_add]

theorem LoadedFrom.counted_iff (h : LoadedFrom ρ agree l m m₀ m') (hl : ∀ c ∈ l, 0 < c.channel) :
    m'.Counted ↔ ∀ sv ∈ m.services, sv.numClients = .ofNat (countOf m₀.noncontrol sv.name) := by
  obtain ⟨l', hl', hlist⟩ := h.noncontrol hl
  have hcount : ∀ name, countOf m'.clients name = countOf l name := fun name => by
    rw [← countOf_noncontrol h.good, hlist, countOf_restored hl']
  have hfaces : m'.Counted ↔ ∀ face ∈ m'.services.map QemudService.face,
      face.2.2 = .ofNat (countOf l face.1) := by
    rw [List.forall_mem_map]
    exact forall₂_congr fun sv _ => by rw [QemudService.face, hcount]
  rw [hfaces, h.services, List.forall_mem_map, List.forall_mem_map]
  exact forall₂_congr fun sv _ => sub_add_eq_iff _ _ _

theorem LoadedFrom.services_same (h : LoadedFrom ρ agree m.noncontrol m m₀ m') (hm : m.Good)
    (hcounted : m.Counted)
    (hcounts : ∀ sv ∈ m.services, sv.numClients = .ofNat (countOf m₀.noncontrol sv.name)) :
    m'.services.map QemudService.face = m.services.map QemudService.face := by
  rw [h.services, List.map_map]
  refine List.map_congr_left fun sv hsv => ?_
  dsimp only [Function.comp_apply, QemudService.face]
  rw [countOf_noncontrol hm, ← hcounts sv hsv, ← hcounted sv hsv, Int32.sub_self, Int32.zero_add]

theorem sameClients_iff (hm : m.Good) (h : LoadedFrom ρ agree
      (m.noncontrol.take (announced m.noncontrol.length)) m m₀ m') :
    SameClients ρ m m' ↔ m.noncontrol.length < 2 ^ 31 ∧ ∀ c ∈ m.noncontrol, Whole c := by
  obtain ⟨l', hl', hlist⟩ := h.noncontrol taken_pos
  have hlength : m'.noncontrol.length = announced m.noncontrol.length := by
    rw [hlist, List.length_reverse, ← hl'.length_eq, List.length_take,
      Nat.min_eq_left (announced_le _)]
  have hresumes : m.noncontrol.length < 2 ^ 31 → ∀ c ∈ m.noncontrol,
      ((∃ c' ∈ m'.noncontrol, Resumes ρ c c') ↔ Whole c) := by
    intro hfew c hc
    rw [announced_eq_iff.mpr hfew, List.take_length] at h
    obtain ⟨c', hc', hrestored⟩ := h.client hc
    have hsound := hm.sound c (channel_noncontrol m c hc).1
    rw [← resumes_iff hsound hrestored]
    constructor
    · rintro ⟨b, hb, hresume⟩
      have hsame : b = c' :=
        h.good.eq_of_client hc' (channel_noncontrol m' b hb).1 hresume.id
      exact hsame ▸ hresume
    · intro hresume
      refine ⟨c', mem_noncontrol.mpr ⟨Keyed.mem_of_find hc', ?_⟩, hresume⟩
      rw [hresume.channel]
      exact (mem_noncontrol.mp hc).2
  constructor
  · rintro ⟨hsame, hall⟩
    have hfew := announced_eq_iff.mp (hlength.symm.trans hsame)
    exact ⟨hfew, fun c hc => (hresumes hfew c hc).mp (hall c hc)⟩
  · rintro ⟨hfew, hwhole⟩
    exact ⟨hlength.trans (announced_eq_iff.mpr hfew),
      fun c hc => (hresumes hfew c hc).mpr (hwhole c hc)⟩

theorem Sim.sameCallbacks {used : Nat → Prop} {alike : δ → δ → Prop}
    (h : Sim ρ used agree alike m.calls m'.calls m m') (hcode : Respects code agree alike)
    (hm : m.serial.Valid) (hm' : m'.serial.Valid) : SameCallbacks code ρ m m' := by
  intro chunks
  rw [(receiver code).serialRead_chunks (s := m) hm,
    (receiver code).serialRead_chunks (s := m') hm']
  have hrel := rel_foldlM (fun _ _ b h => h.readByte hcode b) h chunks.flatten
  generalize chunks.flatten.foldlM (receiver code).readByte m = r,
    chunks.flatten.foldlM (receiver code).readByte m' = r' at hrel
  cases hrel with
  | none => exact .none
  | some h => exact .some h.calls

end Laws

section RoundTrip

/-- Loading the snapshot of a reachable multiplexer into another one with the same services gives
the same clients and right numbers exactly when no client is in the middle of a header, or of a
payload without framing, and each service has as many clients there as it had.  With one client
on each channel the callbacks go on as they would have, too. -/
theorem snapshot_resumes_iff (hservices : Registered services)
    (hcode : Restores code (services.map Prod.fst) agree alike) (hm : Reachable code services m)
    (hm₀ : Reachable code services m₀) :
    ∃ m', (m₀.load code qemudSaveVersion (m.save code)).run = some (.ok m') ∧
      (SameClients (readdress m m₀) m m' ∧ m'.Counted ↔ m.Resumable m₀) ∧
      (m.Resumable m₀ → m.Counted → m.ChannelsOnce →
        SameCallbacks code (readdress m m₀) m m') := by
  have hwork := hm.working hservices hcode
  have hwork₀ := hm₀.working hservices hcode
  obtain ⟨m', hload, halike, hloaded⟩ := loads hservices hcode hwork hwork₀
  refine ⟨m', hload, ?_, fun hresumable hcounted honce => ?_⟩
  · rw [sameClients_iff hwork.toGood hloaded, hloaded.counted_iff taken_pos]
    exact ⟨fun h => ⟨h.1.1, h.1.2, h.2⟩, fun h => ⟨⟨h.few, h.whole⟩, h.counts⟩⟩
  · have hvalid := (hloaded.working hwork).valid
    rw [announced_eq_iff.mpr hresumable.few, List.take_length] at hloaded
    have hsame := hloaded.services_same hwork.toGood hcounted hresumable.counts
    have hsim := hloaded.sim hwork.toGood (hwork₀.idsLt _ hwork₀.control) halike hsame
      hresumable.whole honce
    exact hsim.sameCallbacks hcode.respects hwork.valid hvalid

theorem restores_silent (names : List CString) :
    Restores silent names (fun _ _ => True) (fun _ _ _ => True) where
  respects :=
    { recv := fun _ _ _ _ _ _ _ _ => ⟨trivial, trivial, rfl⟩
      close := fun _ _ _ _ _ _ _ => trivial
      connect := fun _ _ _ _ _ => ⟨.some ⟨trivial, rfl⟩, trivial⟩ }
  start _ _ := trivial
  servLoad _ _ _ _ _ _ := ⟨(), rfl, trivial⟩
  clieClose _ _ _ _ _ := trivial
  servConnect _ _ _ _ _ := ⟨(), [], (), rfl, List.not_mem_nil, trivial⟩
  clieLoad _ _ _ _ _ _ _ := ⟨(), (), rfl, trivial, trivial⟩

theorem registered_gsm : Registered [(ascii "gsm", 0)] where
  nodup := by decide
  isName := List.forall_mem_singleton.mpr ⟨by decide, by decide⟩
  few := by decide

/-- A guest connects one client. -/
def connected : QemudMultiplexer Unit Unit :=
  ((receiver silent).serialRead (init [(ascii "gsm", 0)] ()) (ascii "00000econnect:gsm:01")).getD
    (init [] ())

theorem reachable_connected : Reachable silent [(ascii "gsm", 0)] connected := by
  have hsome : ((receiver silent).serialRead (init [(ascii "gsm", 0)] ())
      (ascii "00000econnect:gsm:01")).isSome := by decide +kernel
  obtain ⟨m, hm⟩ := Option.isSome_iff_exists.mp hsome
  rw [connected, hm]
  exact .read (ascii "00000econnect:gsm:01") (.init ()) hm

theorem snapshot_resumes_connected :
    ∃ m', (connected.load silent qemudSaveVersion (connected.save silent)).run = some (.ok m') ∧
      (SameClients (readdress connected connected) connected m' ∧ m'.Counted ↔
        connected.Resumable connected) ∧
      (connected.Resumable connected → connected.Counted → connected.ChannelsOnce →
        SameCallbacks silent (readdress connected connected) connected m') :=
  snapshot_resumes_iff registered_gsm (restores_silent _) reachable_connected reachable_connected

/-- A new emulator that loads the snapshot counts the client twice. -/
theorem connected_counted_twice :
    ¬∀ m m₀ : QemudMultiplexer Unit Unit, Reachable silent [(ascii "gsm", 0)] m →
      Reachable silent [(ascii "gsm", 0)] m₀ →
        ∃ m', (m₀.load silent qemudSaveVersion (m.save silent)).run = some (.ok m') ∧
          SameClients (readdress m m₀) m m' ∧ m'.Counted ∧
            SameCallbacks silent (readdress m m₀) m m' := by
  intro h
  obtain ⟨m', hload, -, hcounted, -⟩ := h connected (init [(ascii "gsm", 0)] ())
    reachable_connected (.init ())
  have hcode := restores_silent ([(ascii "gsm", 0)].map Prod.fst)
  have hwork := reachable_connected.working registered_gsm hcode
  obtain ⟨m₁, hm₁, -, hloaded⟩ := loads registered_gsm hcode hwork
    (working_init registered_gsm.nodup ())
  obtain rfl := Except.ok.inj (Option.some.inj (hm₁.symm.trans hload))
  have hcounts := (hloaded.counted_iff taken_pos).mp hcounted
  exact absurd hcounts (by decide +kernel)

end RoundTrip

end QemudMultiplexer

end M2M.Qemud
