import M2M.Network.Dbp
import M2M.Network.TopologyRoundTrip
import Mathlib.Data.Set.Function

/-! The writer and the reader of a header queue compute its addresses in different
processes and by different formulas; they agree in every symmetric topology whose file the
line buffer takes whole. -/

namespace M2M.Network.QueueAddress

open M2M.Lib.Decimal M2M.Lib.Loop M2M.Network.NodeInfo M2M.Network.Dbp
open M2M.Network.TopologyFile (Globals SmallCoords Fitting Short lineText cutText readConf infoSize
  fileText)

/-- A topology file with symmetric links. -/
structure Net where
  conf : Conf
  complete : conf.totalDeviceNum = conf.lines.length
  size : conf.totalDeviceNum < maxNodeNum
  inRange : ∀ a, ∀ b ∈ conf.links a, Device conf.totalDeviceNum b
  nodup : ∀ l ∈ conf.lines, l.links.Nodup
  few : ∀ l ∈ conf.lines, l.links.length ≤ nodeMaxLinks
  symm : ∀ a, ∀ b ∈ conf.links a, a ∈ conf.links b
  zed : ∀ l ∈ conf.lines, l.type = .zed → l.links.length = 1

/-- One object, seen by two processes that have the segment attached at `shm` and `shm'`. -/
def SamePlace (shm shm' : Nat) (x y : Option Nat) : Prop :=
  ∃ off, x = some (shm + off) ∧ y = some (shm' + off)

namespace Net

variable (net : Net)

theorem line_eq {a : Nat} (ha : Device net.conf.totalDeviceNum a) :
    ∃ l, l ∈ net.conf.lines ∧ net.conf.line a = some l ∧ net.conf.links a = l.links := by
  obtain ⟨l, hl, hmem⟩ := net.conf.line_isSome (net.complete ▸ ha)
  exact ⟨l, hmem, hl, by simp [Conf.links, hl]⟩

theorem nodeMap_iff {a b i : Nat} (ha : Device net.conf.totalDeviceNum a)
    (hi : i < a) :
    (net.conf.info a).nodeMap b i ≠ 0 ↔ i ∈ net.conf.links b := by
  obtain ⟨-, loc, hf⟩ := Conf.info_eq net.complete ha
  rw [hf.map_iff]
  constructor
  · rintro (⟨-, -, h⟩ | ⟨-, -, h⟩)
    · exact h
    · exact net.symm i b h
  · intro h
    exact .inr ⟨net.inRange b i h, by omega, net.symm b i h⟩

theorem remoteCount_eq {a b : Nat} (ha : Device net.conf.totalDeviceNum a) :
    remoteCount (net.conf.info a) b = Nat.count (· ∈ net.conf.links b) a := by
  obtain ⟨-, loc, hf⟩ := Conf.info_eq net.complete ha
  have hiff : ∀ i, i < a → ((net.conf.info a).nodeMap b i ≠ 0 ↔ i ∈ net.conf.links b) :=
    fun i hi => net.nodeMap_iff ha hi
  have hzero : ¬ (net.conf.info a).nodeMap b 0 ≠ 0 := by
    rw [hiff 0 ha.1]
    intro h
    have := (net.inRange b 0 h).1
    omega
  have hcount := @forUpTo_count (fun i => (net.conf.info a).nodeMap b i ≠ 0) _ hzero (a - 1)
  rw [remoteCount, hf.id_eq, hcount, Nat.sub_add_cancel ha.1]
  refine Nat.le_antisymm ?_ ?_
  · exact Nat.count_mono_left (fun i hi => (hiff i hi).mp)
  · exact Nat.count_mono_left (fun i hi => (hiff i hi).mpr)

theorem nodeShmLocation_eq {a b : Nat} (ha : Device net.conf.totalDeviceNum a)
    (hb : Device net.conf.totalDeviceNum b) (shm : Nat) :
    nodeShmLocation shm (net.conf.info a) b = net.conf.offset (b - 1) + (shm + localtimeSize) := by
  obtain ⟨-, loc, hf⟩ := Conf.info_eq net.complete ha
  rw [nodeShmLocation, hf.num_eq, if_pos hb, hf.shm_eq b hb]

/-- The place of entry `ent` of queue `k` of a device at `off`. -/
def queueOffset (off k ent : Nat) : Nat :=
  off + localtimeSize + headerQueueSize * k + ent * headerQueueEntrySize

def metaOffset (off : Nat) (type : DeviceType) (k : Nat) : Nat :=
  if type = .zed then off + localtimeSize + headerQueueSize
  else off + localtimeSize + headerQueueSize * nodeMaxLinks + headerQueueMetadataSize * k

theorem own_eq {b k : Nat} (hb : Device net.conf.totalDeviceNum b) {l : Line}
    (hl : net.conf.line b = some l) (hk : k < nodeMaxLinks) (hz : l.type = .zed → k = 0)
    (shm : Nat) :
    (∀ ent, ent < headerQueueEntryNum → (dbpInit shm (net.conf.info b)).hqBufferStart k ent =
      some (shm + queueOffset (net.conf.offset (b - 1)) k ent)) ∧
    (dbpInit shm (net.conf.info b)).hqMetaStart k =
      some (shm + metaOffset (net.conf.offset (b - 1)) l.type k) := by
  obtain ⟨-, loc, hf⟩ := Conf.info_eq net.complete hb
  have hbase := net.nodeShmLocation_eq hb hb shm
  obtain ⟨htype, -, -⟩ := hf.own l hb hl
  simp only [dbpInit, hf.id_eq, hbase, htype, queueOffset, metaOffset, hqBufferStart, hqMetaStart]
  by_cases ht : l.type = .zed
  · obtain rfl := hz ht
    refine ⟨?_, ?_⟩
    · intro ent he
      simp only [he, ht, if_true, Option.some.injEq]
      omega
    · simp only [ht, if_true, Option.some.injEq]
      omega
  · refine ⟨?_, ?_⟩
    · intro ent he
      simp only [he, hk, ht, Option.some.injEq, if_true, if_false]
      rw [Nat.mul_comm headerQueueSize k]
      omega
    · simp only [hk, ht, Option.some.injEq, if_true, if_false]
      rw [Nat.mul_comm headerQueueSize, Nat.mul_comm headerQueueMetadataSize]
      omega

theorem remote_eq {a b index : Nat} (ha : Device net.conf.totalDeviceNum a)
    (hb : Device net.conf.totalDeviceNum b) {l : Line} (hl : net.conf.line b = some l)
    (hz : l.type = .zed → Nat.count (· ∈ net.conf.links b) a = 0)
    (hi : (net.conf.info a).neighbors[index]? = some b) (shm : Nat) :
    (∀ ent, ent < headerQueueEntryNum →
      (dbpInit shm (net.conf.info a)).remoteHqBufferStart index ent =
      some (shm + queueOffset (net.conf.offset (b - 1))
        (Nat.count (· ∈ net.conf.links b) a) ent)) ∧
    (dbpInit shm (net.conf.info a)).remoteHqMetaStart index =
      some (shm + metaOffset (net.conf.offset (b - 1)) l.type
        (Nat.count (· ∈ net.conf.links b) a)) := by
  obtain ⟨-, loc, hf⟩ := Conf.info_eq net.complete ha
  have hloc := net.nodeShmLocation_eq ha hb shm
  have hcount : remoteCount (net.conf.info a) b = _ := net.remoteCount_eq ha
  obtain ⟨l', -, hl', -⟩ := net.line_eq ha
  have hlt : index < (net.conf.info a).neighborNum := by
    obtain ⟨-, hn, hnum⟩ := hf.own l' ha hl'
    rw [hn] at hi
    rw [hnum]
    exact (List.getElem?_eq_some_iff.mp hi).1
  simp only [dbpInit, remoteHqBufferStart, remoteHqMetaStart, hlt, hi, hloc, hcount,
    hf.type_eq b l hb hl, queueOffset, metaOffset, true_and, if_true, Option.map_some]
  by_cases ht : l.type = .zed
  · rw [hz ht]
    refine ⟨?_, ?_⟩
    · intro ent he
      simp only [he, ht, if_true, Option.some.injEq]
      omega
    · simp only [ht, if_true, Option.some.injEq]
      omega
  · refine ⟨?_, ?_⟩
    · intro ent he
      simp only [he, ht, Option.some.injEq, if_true, if_false]
      omega
    · simp only [ht, Option.some.injEq, if_false]
      omega

/-- In the processes with the globals `v`, the places that the neighbours of a device compute for
it are those that it computes itself, each of them for one neighbour. -/
def Agree (shm : Nat → Nat) (v : Nat → Info) : Prop :=
  ∀ b, Device net.conf.totalDeviceNum b → ∃ slot : Nat → Nat,
    Set.BijOn slot {a | a ∈ net.conf.links b} {k | k < (v b).neighborNum} ∧
    ∀ a ∈ net.conf.links b, b ∈ (v a).neighbors ∧
      ∀ index, (v a).neighbors[index]? = some b →
        (∀ ent, ent < headerQueueEntryNum →
          SamePlace (shm a) (shm b) ((dbpInit (shm a) (v a)).remoteHqBufferStart index ent)
            ((dbpInit (shm b) (v b)).hqBufferStart (slot a) ent)) ∧
        SamePlace (shm a) (shm b) ((dbpInit (shm a) (v a)).remoteHqMetaStart index)
          ((dbpInit (shm b) (v b)).hqMetaStart (slot a))

theorem agree_info (shm : Nat → Nat) : net.Agree shm net.conf.info := by
  intro b hb
  obtain ⟨l, hmem, hl, hlinks⟩ := net.line_eq hb
  obtain ⟨-, loc, hf⟩ := Conf.info_eq net.complete hb
  obtain ⟨-, -, hnum⟩ := hf.own l hb hl
  have hbij := bijOn_count (net.nodup l hmem)
  rw [← hlinks] at hbij
  refine ⟨Nat.count (· ∈ net.conf.links b), ?_, ?_⟩
  · rw [hnum, ← hlinks]
    exact hbij
  · intro a hab
    have ha : Device net.conf.totalDeviceNum a := net.inRange b a hab
    have hslot : Nat.count (· ∈ net.conf.links b) a < l.links.length := hlinks ▸ hbij.mapsTo hab
    have hz : l.type = .zed → Nat.count (· ∈ net.conf.links b) a = 0 := by
      intro ht
      rw [net.zed l hmem ht] at hslot
      omega
    obtain ⟨la, -, hla, hlinksa⟩ := net.line_eq ha
    obtain ⟨-, loca, hfa⟩ := Conf.info_eq net.complete ha
    obtain ⟨-, hna, -⟩ := hfa.own la ha hla
    refine ⟨?_, ?_⟩
    · rw [hna, ← hlinksa]
      exact net.symm b a hab
    · intro index hi
      obtain ⟨hw, hwm⟩ := net.remote_eq ha hb hl hz hi (shm a)
      obtain ⟨hr, hrm⟩ := net.own_eq hb hl (hslot.trans_le (net.few l hmem)) hz (shm b)
      exact ⟨fun ent he => ⟨_, hw ent he, hr ent he⟩, _, hwm, hrm⟩

/-- Every device has a link. -/
def Linked : Prop := ∀ l ∈ net.conf.lines, l.links ≠ []

instance : Decidable net.Linked :=
  inferInstanceAs (Decidable (∀ l ∈ net.conf.lines, l.links ≠ []))

/-- The places agree when each process reads the characters of the file. -/
def AgreeOnFile (shm : Nat → Nat) (info : Nat → Nat → Char) : Prop :=
  ∃ g : Nat → Globals, (∀ a, Device net.conf.totalDeviceNum a →
    TopologyFile.topologyInit (fileText net.conf) a (info a) .fresh = some (g a)) ∧
      net.Agree shm fun a => (g a).toInfo

theorem readable : net.conf.Readable where
  complete := net.complete
  size := net.size
  few := net.few
  inRange l hl j hj := by
    obtain ⟨i, -, hi⟩ := Conf.exists_line hl
    exact net.inRange i j (by simpa [Conf.links, hi] using hj)

section File

variable {net} {shm : Nat → Nat} {info : Nat → Nat → Char} {g : Nat → Globals}

theorem agreeOnFile_of_fitting (hlinked : net.Linked) (hfits : Fitting net.conf) :
    net.AgreeOnFile shm info := by
  have hread : ∀ a, Device net.conf.totalDeviceNum a → ∃ g,
      TopologyFile.topologyInit (fileText net.conf) a (info a) .fresh = some g ∧
        g.toInfo = net.conf.info a := by
    intro a ha
    obtain ⟨g, v, hg, hv, href, -⟩ := TopologyFile.topologyInit_whole net.readable hlinked hfits ha
      (info a) TopologyFile.refines_fresh rfl
    refine ⟨g, hg, href.toInfo_eq.trans ?_⟩
    rw [(Conf.info_eq net.complete ha).1] at hv
    exact (Option.some.inj hv).symm
  have : Nonempty Globals := ⟨.fresh⟩
  choose! g hg hinfo using hread
  refine ⟨g, hg, fun b hb => ?_⟩
  obtain ⟨slot, hbij, hall⟩ := net.agree_info shm b hb
  refine ⟨slot, ?_, fun a hab => ?_⟩
  · simp only [hinfo b hb]
    exact hbij
  · simp only [hinfo b hb, hinfo a (net.inRange b a hab)]
    exact hall a hab

theorem own_read (hsmall : SmallCoords net.conf) (hshort : Short net.conf) {b : Nat}
    (hb : Device net.conf.totalDeviceNum b) {l : Line} (hl : net.conf.line b = some l)
    {info : Nat → Char} {g : Globals}
    (hg : TopologyFile.topologyInit (fileText net.conf) b info .fresh = some g) :
    g.toInfo.neighbors = fields (cutText l) ∧
      g.toInfo.neighborNum = (fields (cutText l)).length := by
  obtain ⟨g', v, hg', hv, href, -⟩ := TopologyFile.topologyInit_refines net.readable hb
    (fun l hl => TopologyFile.length_lineHead_le (hsmall l hl)) hshort info
    TopologyFile.refines_fresh rfl
  obtain rfl : g = g' := Option.some.inj (hg.symm.trans hg')
  have hcomplete : (readConf net.conf b).totalDeviceNum = (readConf net.conf b).lines.length := by
    simp [readConf, net.complete]
  obtain ⟨loc, v', hv', hf⟩ := topologyInit_from hcomplete (show b ≤
    (readConf net.conf b).totalDeviceNum from hb.2) .fresh
  obtain rfl : v = v' := Option.some.inj (hv.symm.trans hv')
  have hline : (readConf net.conf b).line b = some { l with links := fields (cutText l) } := by
    rw [TopologyFile.line_readConf, hl, Option.map_some, TopologyFile.readLinks, if_pos rfl]
  obtain ⟨-, -, hlist, hnum⟩ := hf.own _ hb hline
  rw [href.toInfo_eq]
  exact ⟨hlist, hnum⟩

theorem neighborNum_eq {v : Nat → Info} (h : net.Agree shm v) {b : Nat}
    (hb : Device net.conf.totalDeviceNum b) : (v b).neighborNum = (net.conf.links b).length := by
  obtain ⟨slot, hbij, -⟩ := h b hb
  obtain ⟨l, hmem, -, hlinks⟩ := net.line_eq hb
  have hset : Set.BijOn slot ((net.conf.links b).toFinset : Set Nat)
      (Finset.range (v b).neighborNum : Set Nat) := by
    rw [List.coe_toFinset, Finset.coe_range]
    exact hbij
  have hcard := hset.finsetCard_eq
  rw [List.toFinset_card_of_nodup (hlinks ▸ net.nodup l hmem), Finset.card_range] at hcard
  exact hcard.symm

theorem mem_neighbors {v : Nat → Info} (h : net.Agree shm v) {a b : Nat}
    (hab : b ∈ net.conf.links a) : b ∈ (v a).neighbors := by
  obtain ⟨slot, -, hall⟩ := h b (net.inRange a b hab)
  exact (hall a (net.symm a b hab)).1

theorem fields_cutText_nil {l : Line} (h : l.links = []) : fields (cutText l) = [0] := by
  have hrender : render ([] : List Nat) = [] := rfl
  rw [cutText, h, hrender, List.take_nil]
  rfl

/-- The device behind a line that does not fit has no neighbours in its own process, and the one
behind it those of that device. -/
theorem short_of_agree (hsmall : SmallCoords net.conf)
    (hlast : ∀ l, net.conf.line net.conf.lines.length = some l → l.links ≠ [])
    (hg : ∀ a, Device net.conf.totalDeviceNum a →
      TopologyFile.topologyInit (fileText net.conf) a (info a) .fresh = some (g a))
    (h : net.Agree shm fun a => (g a).toInfo) : Short net.conf := by
  by_contra hshort
  obtain ⟨i, l, hi, hl, hlong, hfirst⟩ := TopologyFile.exists_first_long hshort
  have hnum := net.complete
  have hnext : net.conf.line (i + 1) = some net.conf.lines[i] := List.getElem?_eq_getElem hi
  have hdi : Device net.conf.totalDeviceNum (i + 1) := ⟨by omega, by omega⟩
  obtain ⟨-, hnone, -⟩ := TopologyFile.shifted_long net.readable hsmall hi hl hlong hfirst hdi.2
    (hg _ hdi)
  have hlinks : net.conf.lines[i].links = [] := by
    have hcard := neighborNum_eq h hdi
    change (g (i + 1)).neighborNum = _ at hcard
    rw [hnone rfl, TopologyFile.links_eq net.conf hnext] at hcard
    exact List.eq_nil_of_length_eq_zero hcard.symm
  have hlt : i + 1 < net.conf.lines.length := by
    by_contra hge
    have heq : i + 1 = net.conf.lines.length := by omega
    exact hlast _ (heq ▸ hnext) hlinks
  have hdb : Device net.conf.totalDeviceNum (i + 2) := ⟨by omega, by omega⟩
  obtain ⟨-, -, hbehind⟩ := TopologyFile.shifted_long net.readable hsmall hi hl hlong hfirst hdb.2
    (hg _ hdb)
  have hlist : (g (i + 2)).toInfo.neighbors = [0] :=
    (hbehind _ hnext rfl).trans (fields_cutText_nil hlinks)
  have hone : (g (i + 2)).toInfo.neighborNum = 1 := by
    simpa [Globals.toInfo] using congrArg List.length hlist
  obtain ⟨a, ha⟩ := List.exists_mem_of_length_pos
    (Nat.lt_of_lt_of_eq Nat.one_pos (hone.symm.trans (neighborNum_eq h hdb)))
  have hzero := mem_neighbors h ha
  rw [hlist, List.mem_singleton] at hzero
  have hpos := (net.inRange _ a ha).1
  omega

theorem linked_of_agree (hsmall : SmallCoords net.conf) (hshort : Short net.conf)
    (hg : ∀ a, Device net.conf.totalDeviceNum a →
      TopologyFile.topologyInit (fileText net.conf) a (info a) .fresh = some (g a))
    (h : net.Agree shm fun a => (g a).toInfo) : net.Linked := by
  intro l hmem hnil
  obtain ⟨b, hb, hl⟩ := Conf.exists_line hmem
  rw [← net.complete] at hb
  have hcard := neighborNum_eq h hb
  rw [(own_read hsmall hshort hb hl (hg b hb)).2, fields_cutText_nil hnil,
    TopologyFile.links_eq net.conf hl, hnil] at hcard
  cases hcard

theorem last_of_agree (hsmall : SmallCoords net.conf) (hshort : Short net.conf)
    (hg : ∀ a, Device net.conf.totalDeviceNum a →
      TopologyFile.topologyInit (fileText net.conf) a (info a) .fresh = some (g a))
    (h : net.Agree shm fun a => (g a).toInfo) {l : Line}
    (hl : net.conf.line net.conf.lines.length = some l) : (lineText l).length ≤ infoSize := by
  by_contra hlong
  have hmem := net.conf.mem_of_line hl
  have hlinks := TopologyFile.links_eq net.conf hl
  have hb : Device net.conf.totalDeviceNum net.conf.lines.length := by
    rw [net.complete]
    refine ⟨Nat.one_le_iff_ne_zero.mpr fun hzero => ?_, le_rfl⟩
    rw [hzero] at hl
    cases hl
  obtain ⟨hlist, hnum⟩ := own_read hsmall hshort hb hl (hg _ hb)
  have hsub : l.links ⊆ fields (cutText l) := by
    intro a ha
    rw [← hlist]
    exact mem_neighbors h (hlinks.symm ▸ ha)
  have hlength : (fields (cutText l)).length = l.links.length := by
    rw [← hnum, ← hlinks]
    exact neighborNum_eq h hb
  have hperm : l.links.Perm (fields (cutText l)) :=
    ((net.nodup l hmem).subperm hsub).perm_of_length_le hlength.le
  refine Nat.ne_of_lt (sum_fields_take_lt (fun a ha => ?_) ?_) hperm.sum_nat.symm
  · exact Nat.one_le_iff_ne_zero.mp (net.inRange _ a (hlinks.symm ▸ ha)).1
  · have hhead := TopologyFile.length_lineHead_le (hsmall l hmem)
    simp only [lineText, List.length_append, List.length_singleton] at hlong
    omega

theorem fitting_of_agree (hsmall : SmallCoords net.conf)
    (hlast : ∀ l, net.conf.line net.conf.lines.length = some l → l.links ≠ [])
    (h : net.AgreeOnFile shm info) : net.Linked ∧ Fitting net.conf := by
  obtain ⟨g, hg, hagree⟩ := h
  have hshort := short_of_agree hsmall hlast hg hagree
  exact ⟨linked_of_agree hsmall hshort hg hagree,
    hshort, fun l hl => last_of_agree hsmall hshort hg hagree hl⟩

end File

/-- The places agree if every device has a link and the buffer takes all lines whole, and, in a
network with coordinates of up to three digits whose last device has a link, only then. -/
theorem queueAddress_agreement (shm : Nat → Nat) (info : Nat → Nat → Char) :
    (net.Linked ∧ Fitting net.conf → net.AgreeOnFile shm info) ∧
    (SmallCoords net.conf →
      (∀ l, net.conf.line net.conf.lines.length = some l → l.links ≠ []) →
        net.AgreeOnFile shm info → net.Linked ∧ Fitting net.conf) :=
  ⟨fun h => agreeOnFile_of_fitting h.1 h.2, fitting_of_agree⟩

/-- A coordinator and an end device at the two sides of a router. -/
def line : Net where
  conf := ⟨3, [⟨.zc, (0, 0, 0), [2]⟩, ⟨.zr, (10, 0, 0), [1, 3]⟩, ⟨.zed, (20, 0, 0), [2]⟩]⟩
  complete := rfl
  size := by decide
  inRange a b hb := by
    match a with
    | 0 => cases hb
    | 1 | 2 | 3 =>
      revert b
      decide
    | a + 4 => cases hb
  nodup := by decide
  few := by decide
  symm a b hb := by
    match a with
    | 0 => cases hb
    | 1 | 2 | 3 =>
      revert b
      decide
    | a + 4 => cases hb
  zed := by decide

theorem fitting_line : Fitting line.conf where
  short i l _ hl := by
    have hall : ∀ l ∈ line.conf.lines, (lineText l).length + 1 < infoSize := by decide
    exact hall l (line.conf.mem_of_line hl)
  last l hl := by
    have hall : ∀ l ∈ line.conf.lines, (lineText l).length ≤ infoSize := by decide
    exact hall l (line.conf.mem_of_line hl)

theorem queueAddress_agreement_line :
    line.AgreeOnFile (fun a => 4096 * a) (fun _ _ => '\x00') :=
  (line.queueAddress_agreement (fun a => 4096 * a) fun _ _ => '\x00').1
    ⟨by decide, fitting_line⟩

/-- The coordinator whose line has 39 characters, with its fourteen devices. -/
def wide : Net where
  conf := TopologyFile.wide.conf
  complete := TopologyFile.wide.readable.complete
  size := TopologyFile.wide.readable.size
  inRange _ _ hb := TopologyFile.wide.readable.link hb
  nodup := TopologyFile.wide.nodup
  few := TopologyFile.wide.readable.few
  symm := TopologyFile.wide.symm
  zed := by decide

/-- The newline that the buffer leaves over is taken for the line of device 2, which then has no
neighbour to send to. -/
theorem not_agreeOnFile_wide : ¬ wide.AgreeOnFile (fun a => 4096 * a) fun _ _ => '\x00' := by
  intro h
  obtain ⟨-, hfits⟩ : wide.Linked ∧ Fitting wide.conf :=
    fitting_of_agree TopologyFile.wide.location
      (fun l hl => TopologyFile.wide.linked l (wide.conf.mem_of_line hl)) h
  have hfirst := hfits.short 1 _ (by decide) rfl
  exact absurd hfirst (by decide)

end Net

end M2M.Network.QueueAddress
