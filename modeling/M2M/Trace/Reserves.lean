import M2M.Trace.Streams

/-! When what is reserved for the records of a trace is enough for them. -/

namespace M2M.Trace.Streams

open M2M.Lib M2M.Trace.Varint

section Sizes

/-- The bytes of a word, by the table of `varint_encode`. -/
def wordBytes (value : Nat) : Nat :=
  if value < 2 ^ 7 then 1 else if value < 2 ^ 14 then 2 else if value < 2 ^ 21 then 3
  else if value < 2 ^ 28 then 4 else if value < 2 ^ 35 then 5 else if value < 2 ^ 42 then 6 else 9

/-- The bytes of a signed word, by the table of `varint_encode_signed`. -/
def signedBytes (value : Int) : Nat :=
  if value < 2 ^ 6 ∧ -2 ^ 6 ≤ value then 1 else if value < 2 ^ 13 ∧ -2 ^ 13 ≤ value then 2
  else if value < 2 ^ 20 ∧ -2 ^ 20 ≤ value then 3 else if value < 2 ^ 27 ∧ -2 ^ 27 ≤ value then 4
  else 5

theorem length_varintEncode (value : UInt64) :
    (varintEncode value).length = wordBytes value.toNat := by
  have hlt : ∀ limit : UInt64, (value < limit) = (value.toNat < limit.toNat) :=
    fun limit => propext UInt64.lt_iff_toNat_lt
  simp only [varintEncode, wordBytes, hlt, apply_ite List.length]
  rfl

theorem length_varintEncodeSigned (value : Int64) :
    (varintEncodeSigned value).length = signedBytes value.toInt := by
  have hlt : ∀ limit : Int64, (value < limit) = (value.toInt < limit.toInt) :=
    fun limit => propext Int64.lt_iff_toInt_lt
  have hge : ∀ limit : Int64, (value ≥ limit) = (limit.toInt ≤ value.toInt) :=
    fun limit => propext Int64.le_iff_toInt_le
  simp only [varintEncodeSigned, signedBytes, hlt, hge, apply_ite List.length]
  rfl

theorem wordBytes_spec (value : Nat) :
    0 < wordBytes value ∧ wordBytes value ≤ 9 ∧ (wordBytes value ≤ 8 → wordBytes value ≤ 6) ∧
      (wordBytes value ≤ 1 ↔ value < 2 ^ 7) ∧ (wordBytes value ≤ 2 ↔ value < 2 ^ 14) ∧
      (wordBytes value ≤ 4 ↔ value < 2 ^ 28) ∧ (wordBytes value ≤ 5 ↔ value < 2 ^ 35) ∧
      (wordBytes value ≤ 6 ↔ value < 2 ^ 42) := by
  rw [wordBytes]
  split_ifs <;> omega

theorem signedBytes_le (value : Int) : signedBytes value ≤ 5 := by
  rw [signedBytes]
  split_ifs <;> decide

theorem intBytes_spec (n : Int32) :
    (n.toInt < 0 → wordBytes (intWord n).toNat = 9) ∧
      (0 ≤ n.toInt → wordBytes (intWord n).toNat ≤ 5 ∧
        (wordBytes (intWord n).toNat ≤ 4 ↔ n.toInt < 2 ^ 28) ∧
        (wordBytes (intWord n).toNat ≤ 1 ↔ n.toInt < 2 ^ 7)) := by
  have hword : ((intWord n).toNat : Int) = n.toInt % 2 ^ 64 := by
    rw [intWord, natCast_toUInt64, Int32.toInt_toInt64]
  have hlt := n.toInt_lt
  have hle := n.le_toInt
  obtain ⟨-, h9, h8, h1, -, h4, h5, h6⟩ := wordBytes_spec (intWord n).toNat
  constructor
  · intro hneg
    omega
  · intro hpos
    omega

def valueBytes (values : List UInt64) : Nat := (values.map fun value => wordBytes value.toNat).sum

theorem length_flatMap_varintEncode (values : List UInt64) :
    (values.flatMap varintEncode).length = valueBytes values := by
  rw [List.length_flatMap, valueBytes]
  exact congrArg List.sum (List.map_congr_left fun value _ => length_varintEncode value)

theorem valueBytes_cons (value : UInt64) (values : List UInt64) :
    valueBytes (value :: values) = wordBytes value.toNat + valueBytes values := rfl

theorem valueBytes_nil : valueBytes [] = 0 := rfl

theorem valueBytes_le (values : List UInt64) : valueBytes values ≤ 9 * values.length := by
  induction values with
  | nil => exact Nat.le_refl 0
  | cons value values ih =>
    have hword := (wordBytes_spec value.toNat).2.1
    rw [valueBytes_cons, List.length_cons]
    omega

end Sizes

section Blocks

def entrySize (e : BB.Entry) : Nat :=
  signedBytes e.bbDiff.toInt + wordBytes e.timeDiff.toNat + wordBytes e.repeatCount.toNat +
    (e.interval.map fun interval => wordBytes interval.toNat).getD 0

theorem length_entryBytes (e : BB.Entry) : (entryBytes e).length = entrySize e := by
  rw [entryBytes, List.length_append, List.length_append, List.length_append,
    length_varintEncodeSigned, length_varintEncode, length_varintEncode, UInt32.toNat_toUInt64,
    entrySize]
  cases e.interval with
  | none => rfl
  | some interval => exact congrArg (_ + ·) (length_varintEncode interval)

theorem repeatBytes_le (c : UInt32) : wordBytes c.toNat ≤ 5 := by
  have hlt := c.toNat_lt
  obtain ⟨-, -, -, -, -, -, h5, -⟩ := wordBytes_spec c.toNat
  omega

theorem entrySize_le (e : BB.Entry) : entrySize e ≤ kMaxBBCompressed := by
  have hdiff := signedBytes_le e.bbDiff.toInt
  have htime := (wordBytes_spec e.timeDiff.toNat).2.1
  have hcount := repeatBytes_le e.repeatCount
  have hinterval : (e.interval.map fun interval => wordBytes interval.toNat).getD 0 ≤ 9 := by
    cases e.interval with
    | none => exact Nat.zero_le 9
    | some interval => exact (wordBytes_spec interval.toNat).2.1
  rw [entrySize, kMaxBBCompressed]
  omega

/-- The buffer has room for the extra record that `trace_cleanup` stores behind the last one. -/
def RoomAtEnd (w : World) : Prop :=
  let written := BB.encode w.bb.prevBbNum w.bb.prevBbTime w.bb.buffered
  let timeDiff := w.simTime - written.2.2
  let sizes := (w.bb.file ++ written.1).map entrySize
  timeDiff = 0 ∨ sizes.foldl (Outgoing.fill (kCompressedSize - kMaxBBCompressed)) 0 +
    (signedBytes (-written.2.1).toInt + wordBytes timeDiff.toNat + 1) ≤ kCompressedSize

theorem sound_bbStream (entries : List BB.Entry) : (bbStream entries).Sound kCompressedSize := by
  refine (Outgoing.sound_foldl_storeBelow (by decide) (by decide) ?_).mpr Outgoing.sound_empty
  intro record hrecord
  obtain ⟨e, -, rfl⟩ := List.mem_map.mp hrecord
  rw [length_entryBytes]
  exact entrySize_le e

theorem length_pending_bbStream (entries : List BB.Entry) :
    (bbStream entries).pending.length = (entries.map entrySize).foldl
      (Outgoing.fill (kCompressedSize - kMaxBBCompressed)) 0 := by
  rw [bbStream, Outgoing.length_pending_foldl_storeBelow, List.map_map]
  exact congrArg (List.foldl _ 0) (List.map_congr_left fun e _ => length_entryBytes e)

theorem sound_cleanupBB_iff (w : World) :
    (cleanupBB w.bb w.simTime).Sound kCompressedSize ↔ RoomAtEnd w := by
  rw [cleanupBB, RoomAtEnd]
  split
  · next hpos =>
    rw [Outgoing.sound_store_iff, and_iff_right (sound_bbStream _), length_pending_bbStream,
      length_entryBytes, or_iff_right (UInt64.pos_iff_ne_zero.mp hpos)]
    exact and_iff_left (Int.ofNat_le.mpr (entrySize_le _))
  · next hzero =>
    refine iff_of_true (sound_bbStream _) (.inl ?_)
    exact UInt64.le_zero_iff.mp (UInt64.not_lt.mp hzero)

theorem sound_cleanupInsn (t : Insn.TraceInsn) : (cleanupInsn t).Sound kCompressedSize := by
  refine (Outgoing.sound_foldl_storeBelow (by decide) (by decide) ?_).mpr Outgoing.sound_empty
  intro record hrecord
  obtain ⟨r, -, rfl⟩ := List.mem_map.mp hrecord
  have htime := (wordBytes_spec r.timeDiff.toNat).2.1
  have hcount := repeatBytes_le r.repeatCount
  rw [insnBytes, List.length_append, length_varintEncode, length_varintEncode,
    UInt32.toNat_toUInt64, kMaxInsnCompressed]
  omega

end Blocks

section Addresses

theorem sound_compressRecord (t : TraceAddr) (r : AddrRec) :
    (t.compressRecord r).compressed.Sound kCompressedSize ↔
      t.compressed.Sound kCompressedSize := by
  refine (Outgoing.sound_storeBelow_iff (by decide) (by decide)).trans (and_iff_left ?_)
  have haddr := signedBytes_le (r.addr - t.prevAddr).toInt32.toInt64.toInt
  have htime := (wordBytes_spec (r.time - t.prevTime).toNat).2.1
  rw [addrBytes, List.length_append, length_varintEncodeSigned, length_varintEncode,
    kMaxAddrCompressed]
  omega

theorem sound_compressTraceAddresses (t : TraceAddr) :
    (compressTraceAddresses t).compressed.Sound kCompressedSize ↔
      t.compressed.Sound kCompressedSize := by
  have hfold : ∀ (records : List AddrRec) (t : TraceAddr),
      (records.foldl TraceAddr.compressRecord t).compressed.Sound kCompressedSize ↔
        t.compressed.Sound kCompressedSize := by
    intro records
    induction records with
    | nil => exact fun _ => Iff.rfl
    | cons r records ih => exact fun t => (ih _).trans (sound_compressRecord t r)
  exact hfold t.buffer t

theorem sound_traceAddr (t : TraceAddr) (simTime : UInt64) (addr : UInt32) :
    (traceAddr t simTime addr).compressed.Sound kCompressedSize ↔
      t.compressed.Sound kCompressedSize := by
  rw [traceAddr]
  dsimp only
  split
  · exact sound_compressTraceAddresses _
  · exact Iff.rfl

end Addresses

section Pids

variable {t : TracePid} {simTime recType : UInt64}

def TracePid.elapsed (t : TracePid) (simTime : UInt64) : Nat := (simTime - t.prevTime).toNat

theorem sound_record {reserve : Int} {values : List UInt64} {bytes : List UInt8}
    (hvalues : values.length ≤ 4) (hbytes : bytes.length ≤ 8000) (hrec : recType.toNat < 2 ^ 7) :
    (t.record simTime reserve recType values bytes).compressed.Sound kCompressedSize ↔
      t.compressed.Sound kCompressedSize ∧
        (wordBytes (t.elapsed simTime) + 1 + valueBytes values + bytes.length : Nat) ≤ reserve := by
  obtain ⟨hpos, htime, -⟩ := wordBytes_spec (simTime - t.prevTime).toNat
  obtain ⟨hrecPos, -, -, hone, -⟩ := wordBytes_spec recType.toNat
  have hle := valueBytes_le values
  have hlength : (((simTime - t.prevTime) :: recType :: values).flatMap varintEncode ++
      bytes).length = wordBytes (t.elapsed simTime) + 1 + valueBytes values + bytes.length := by
    rw [List.length_append, length_flatMap_varintEncode, valueBytes_cons, valueBytes_cons,
      TracePid.elapsed]
    omega
  rw [← hlength]
  refine Outgoing.sound_storeWithin_iff ?_
  rw [hlength, kCompressedSize, TracePid.elapsed]
  omega

theorem sound_tracePid1arg (pid : Int32) (hrec : recType.toNat < 2 ^ 7) :
    (tracePid1arg t simTime pid recType).compressed.Sound kCompressedSize ↔
      t.compressed.Sound kCompressedSize ∧ (0 ≤ pid.toInt ∨ t.elapsed simTime < 2 ^ 35) := by
  refine (sound_record (by simp) (by simp) hrec).trans (and_congr_right fun _ => ?_)
  obtain ⟨-, htime, -, -, -, -, h5, -⟩ := wordBytes_spec (t.elapsed simTime)
  obtain ⟨hneg, hnat⟩ := intBytes_spec pid
  rw [valueBytes_cons, valueBytes_nil, List.length_nil, kMaxPidCompressed]
  omega

/-- When two numbers have room that is meant for two that are not negative. -/
def PidsFit (elapsed : Nat) (tgid pid : Int32) : Prop :=
  0 ≤ tgid.toInt ∧ 0 ≤ pid.toInt ∨ elapsed < 2 ^ 7 ∨
    0 ≤ max tgid.toInt pid.toInt ∧ (elapsed < 2 ^ 35 ∨
      elapsed < 2 ^ 42 ∧ max tgid.toInt pid.toInt < 2 ^ 28 ∨ max tgid.toInt pid.toInt < 2 ^ 7)

theorem sound_tracePid2arg (tgid pid : Int32) (hrec : recType.toNat < 2 ^ 7) :
    (tracePid2arg t simTime tgid pid recType).compressed.Sound kCompressedSize ↔
      t.compressed.Sound kCompressedSize ∧ PidsFit (t.elapsed simTime) tgid pid := by
  refine (sound_record (by simp) (by simp) hrec).trans (and_congr_right fun _ => ?_)
  obtain ⟨hpos, htime, hgap, h1, -, -, h5, h6⟩ := wordBytes_spec (t.elapsed simTime)
  obtain ⟨htgid, htgid'⟩ := intBytes_spec tgid
  obtain ⟨hpid, hpid'⟩ := intBytes_spec pid
  rw [valueBytes_cons, valueBytes_cons, valueBytes_nil, List.length_nil, kMaxPid2Compressed,
    PidsFit]
  rcases lt_or_ge tgid.toInt 0 with htneg | htpos
  · rcases lt_or_ge pid.toInt 0 with hpneg | hppos
    · omega
    · rw [max_eq_right (by omega)]
      omega
  · rcases lt_or_ge pid.toInt 0 with hpneg | hppos
    · rw [max_eq_left (by omega)]
      omega
    · omega

theorem nameBytes_spec {n : Nat} (hn : n < 4096) :
    (UInt64.ofNat n).toNat = n ∧ 0 < wordBytes n ∧ wordBytes n ≤ 2 ∧
      (wordBytes n ≤ 1 ↔ n < 2 ^ 7) := by
  obtain ⟨hpos, -, -, h1, h2, -⟩ := wordBytes_spec n
  exact ⟨by rw [UInt64.toNat_ofNat', Nat.mod_eq_of_lt (by omega)], hpos, by omega, h1⟩

theorem sound_traceName (currentPid : Int32) {name : List UInt8} (hname : name.length < 4096) :
    (traceName t simTime currentPid name).compressed.Sound kCompressedSize ↔
      t.compressed.Sound kCompressedSize ∧
        (0 ≤ currentPid.toInt ∨ t.elapsed simTime < 2 ^ 42 ∨ name.length < 2 ^ 7) := by
  refine (sound_record (by simp) (by omega) (by decide)).trans (and_congr_right fun _ => ?_)
  obtain ⟨-, htime, hgap, -, -, -, -, h6⟩ := wordBytes_spec (t.elapsed simTime)
  obtain ⟨hneg, hnat⟩ := intBytes_spec currentPid
  obtain ⟨hlen, hpos, htwo, hone⟩ := nameBytes_spec hname
  rw [valueBytes_cons, valueBytes_cons, valueBytes_nil, hlen, kMaxNameCompressed]
  omega

/-- When two numbers have room beside a string. -/
def NamePidsFit (elapsed : Nat) (tgid pid : Int32) (len : Nat) : Prop :=
  0 ≤ tgid.toInt ∧ 0 ≤ pid.toInt ∨ elapsed < 2 ^ 28 ∨ elapsed < 2 ^ 35 ∧ len < 2 ^ 7 ∨
    0 ≤ max tgid.toInt pid.toInt ∧
      (elapsed < 2 ^ 42 ∨ max tgid.toInt pid.toInt < 2 ^ 28 ∨ len < 2 ^ 7)

theorem sound_traceInitName (tgid pid : Int32) {name : List UInt8} (hname : name.length < 4096) :
    (traceInitName t simTime tgid pid name).compressed.Sound kCompressedSize ↔
      t.compressed.Sound kCompressedSize ∧
        NamePidsFit (t.elapsed simTime) tgid pid name.length := by
  refine (sound_record (by simp) (by omega) (by decide)).trans (and_congr_right fun _ => ?_)
  obtain ⟨hposTime, htime, hgap, -, -, h4, h5, h6⟩ := wordBytes_spec (t.elapsed simTime)
  obtain ⟨htgid, htgid'⟩ := intBytes_spec tgid
  obtain ⟨hpid, hpid'⟩ := intBytes_spec pid
  obtain ⟨hlen, hpos, htwo, hone⟩ := nameBytes_spec hname
  rw [valueBytes_cons, valueBytes_cons, valueBytes_cons, valueBytes_nil, hlen,
    kMaxKthreadNameCompressed, NamePidsFit]
  rcases lt_or_ge tgid.toInt 0 with htneg | htpos
  · rcases lt_or_ge pid.toInt 0 with hpneg | hppos
    · omega
    · rw [max_eq_right (by omega)]
      omega
  · rcases lt_or_ge pid.toInt 0 with hpneg | hppos
    · rw [max_eq_left (by omega)]
      omega
    · omega

theorem sound_traceMmap (vstart vend offset : UInt64) {path : List UInt8}
    (hpath : path.length < 4096) :
    (traceMmap t simTime vstart vend offset path).compressed.Sound kCompressedSize ↔
      t.compressed.Sound kCompressedSize ∧ wordBytes (t.elapsed simTime) +
        wordBytes vstart.toNat + wordBytes vend.toNat + wordBytes offset.toNat +
          wordBytes path.length ≤ 32 := by
  refine (sound_record (by simp) (by omega) (by decide)).trans (and_congr_right fun _ => ?_)
  rw [valueBytes_cons, valueBytes_cons, valueBytes_cons, valueBytes_cons, valueBytes_nil,
    (nameBytes_spec hpath).1, kMaxMmapCompressed]
  omega

theorem sound_traceMunmap (vstart vend : UInt64) :
    (traceMunmap t simTime vstart vend).compressed.Sound kCompressedSize ↔
      t.compressed.Sound kCompressedSize := by
  refine (sound_record (by simp) (by simp) (by decide)).trans (and_iff_left ?_)
  have htime := (wordBytes_spec (t.elapsed simTime)).2.1
  have hstart := (wordBytes_spec vstart.toNat).2.1
  have hend := (wordBytes_spec vend.toNat).2.1
  rw [valueBytes_cons, valueBytes_cons, valueBytes_nil, List.length_nil, kMaxMunmapCompressed]
  omega

theorem sound_traceDynamicSymbolAdd (vaddr : UInt64) {name : List UInt8}
    (hname : name.length < 4096) :
    (traceDynamicSymbolAdd t simTime vaddr name).compressed.Sound kCompressedSize ↔
      t.compressed.Sound kCompressedSize := by
  refine (sound_record (by simp) (by omega) (by decide)).trans (and_iff_left ?_)
  have htime := (wordBytes_spec (t.elapsed simTime)).2.1
  have haddr := (wordBytes_spec vaddr.toNat).2.1
  obtain ⟨hlen, -, htwo, -⟩ := nameBytes_spec hname
  rw [valueBytes_cons, valueBytes_cons, valueBytes_nil, hlen, kMaxSymbolCompressed]
  omega

theorem sound_traceDynamicSymbolRemove (vaddr : UInt64) :
    (traceDynamicSymbolRemove t simTime vaddr).compressed.Sound kCompressedSize ↔
      t.compressed.Sound kCompressedSize := by
  refine (sound_record (by simp) (by simp) (by decide)).trans (and_iff_left ?_)
  have htime := (wordBytes_spec (t.elapsed simTime)).2.1
  have haddr := (wordBytes_spec vaddr.toNat).2.1
  rw [valueBytes_cons, valueBytes_nil, List.length_nil, kMaxSymbolCompressed]
  omega

end Pids

section CommandLines

theorem args_zero (argv : List UInt8) : args argv 0 = [] := by rw [args, dif_neg (Nat.lt_irrefl 0)]

theorem sum_args_le (argv : List UInt8) (len : Nat) :
    ((args argv len).map fun arg => arg.length + 1).sum ≤ max len (argv.length + 1) := by
  induction argv, len using args.induct with
  | case1 argv len hpos arg ih =>
    have harg : arg.length ≤ argv.length := (List.takeWhile_prefix _).length_le
    rw [List.length_drop] at ih
    have hargs : args argv len =
        arg :: args (argv.drop (arg.length + 1)) (len - (arg.length + 1)) := by
      rw [args, dif_pos hpos]
    rw [hargs, List.map_cons, List.sum_cons]
    rcases Nat.eq_zero_or_pos (len - (arg.length + 1)) with hlast | hmore
    · rw [hlast, args_zero] at ih ⊢
      rw [List.map_nil, List.sum_nil]
      omega
    · omega
  | case2 argv len hnot =>
    rw [args, dif_neg hnot]
    exact Nat.zero_le _

def argBytes (strings : List (List UInt8)) : Nat :=
  (strings.map fun arg => wordBytes arg.length + arg.length).sum

theorem argBytes_le {strings : List (List UInt8)} (h : ∀ arg ∈ strings, arg.length < 4096) :
    2 * argBytes strings ≤ 3 * (strings.map fun arg => arg.length + 1).sum := by
  induction strings with
  | nil => exact Nat.le_refl 0
  | cons arg strings ih =>
    obtain ⟨harg, hstrings⟩ := List.forall_mem_cons.mp h
    have hle := ih hstrings
    obtain ⟨-, -, htwo, hone⟩ := nameBytes_spec harg
    rw [argBytes, List.map_cons, List.map_cons, List.sum_cons, List.sum_cons, ← argBytes]
    omega

theorem length_flatMap_args {strings : List (List UInt8)} (h : ∀ arg ∈ strings, arg.length < 4096) :
    (strings.flatMap fun arg => varintEncode (.ofNat arg.length) ++ arg).length =
      argBytes strings := by
  rw [List.length_flatMap, argBytes]
  refine congrArg List.sum (List.map_congr_left fun arg harg => ?_)
  rw [List.length_append, length_varintEncode, (nameBytes_spec (h arg harg)).1]

theorem length_args_le (argv : List UInt8) (len : Nat) : (args argv len).length ≤ len := by
  induction argv, len using args.induct with
  | case1 argv len hpos arg ih =>
    have hargs : args argv len =
        arg :: args (argv.drop (arg.length + 1)) (len - (arg.length + 1)) := by
      rw [args, dif_pos hpos]
    rw [hargs, List.length_cons]
    omega
  | case2 argv len hnot =>
    rw [args, dif_neg hnot]
    exact Nat.zero_le len

theorem length_arg_lt {argv : List UInt8} {len : Nat} (hargv : argv.length < 4096) :
    ∀ arg ∈ args argv len, arg.length < 4096 := by
  induction argv, len using args.induct with
  | case1 argv len hpos first ih =>
    rw [args, dif_pos hpos]
    refine List.forall_mem_cons.mpr ⟨?_, ih ?_⟩
    · exact ((List.takeWhile_prefix _).length_le).trans_lt hargv
    · rw [List.length_drop]
      omega
  | case2 argv len hnot =>
    rw [args, dif_neg hnot]
    exact List.forall_mem_nil _

theorem sound_traceExecve {t : TracePid} {simTime : UInt64} {argv : List UInt8} {len : Int32}
    (hargv : argv.length < 4096) (hlen : len.toInt ≤ 4096) :
    (traceExecve t simTime argv len).compressed.Sound kCompressedSize ↔
      t.compressed.Sound kCompressedSize ∧
        let strings := args argv len.toInt.toNat
        (wordBytes (t.elapsed simTime) + 1 + wordBytes strings.length + argBytes strings : Nat) ≤
          len.toInt + 5 * strings.length + kMaxExecArgsCompressed := by
  have hargs : ∀ arg ∈ args argv len.toInt.toNat, arg.length < 4096 := length_arg_lt hargv
  have hsum := sum_args_le argv len.toInt.toNat
  have hcount := length_args_le argv len.toInt.toNat
  have hbytes := argBytes_le hargs
  have hargc : (UInt64.ofNat (args argv len.toInt.toNat).length).toNat =
      (args argv len.toInt.toNat).length := by
    rw [UInt64.toNat_ofNat', Nat.mod_eq_of_lt (by omega)]
  refine (sound_record (by simp) ?_ (by decide)).trans (and_congr_right fun _ => ?_)
  · rw [length_flatMap_args hargs]
    omega
  · rw [valueBytes_cons, valueBytes_nil, length_flatMap_args hargs, hargc]
    exact Iff.rfl

end CommandLines

section Runs

/-- When a record has room in what is reserved for it. -/
def Roomy (w : World) : Event → Prop
  | .exception targetPc =>
    w.bb.currentBbNum = 0 ∨
      valueBytes (excValues w.exc w.bb w.simTime targetPc) ≤ kMaxExcCompressed
  | .switch pid | .exit pid => 0 ≤ pid.toInt ∨ w.pid.elapsed w.simTime < 2 ^ 35
  | .fork tgid pid | .clone tgid pid => PidsFit (w.pid.elapsed w.simTime) tgid pid
  | .name s =>
    0 ≤ w.currentPid.toInt ∨ w.pid.elapsed w.simTime < 2 ^ 42 ∨ s.length < 2 ^ 7
  | .execve argv len =>
    let strings := args argv len.toInt.toNat
    (wordBytes (w.pid.elapsed w.simTime) + 1 + wordBytes strings.length + argBytes strings : Nat) ≤
      len.toInt + 5 * strings.length + kMaxExecArgsCompressed
  | .mmap vstart vend offset path =>
    wordBytes (w.pid.elapsed w.simTime) + wordBytes vstart.toNat + wordBytes vend.toNat +
      wordBytes offset.toNat + wordBytes path.length ≤ 32
  | .initName tgid pid s => NamePidsFit (w.pid.elapsed w.simTime) tgid pid s.length
  | .interpretedMethod addr callType =>
    wordBytes (w.simTime - w.method.prevTime).toNat +
      signedBytes (addr - w.method.prevAddr).toInt32.toInt +
      signedBytes (w.currentPid - w.method.prevPid).toInt + wordBytes (intWord callType).toNat ≤
        kMaxMethodCompressed
  | .clock _ | .generate _ _ | .bb _ _ | .insn | .load _ | .store _ | .munmap _ _
  | .dynamicSymbolAdd _ _ | .dynamicSymbolRemove _ => True

theorem sound_traceException (t : TraceExc) (bb : BB.TraceBB) (simTime : UInt64)
    (targetPc : UInt32) :
    (traceException t bb simTime targetPc).compressed.Sound kCompressedSize ↔
      t.compressed.Sound kCompressedSize ∧ (bb.currentBbNum = 0 ∨
        valueBytes (excValues t bb simTime targetPc) ≤ kMaxExcCompressed) := by
  rw [traceException]
  split
  · next hzero => exact (and_iff_left (.inl hzero)).symm
  · next hnot =>
    rw [or_iff_right hnot, ← length_flatMap_varintEncode]
    exact Outgoing.sound_storeBelow_iff (by decide) (by decide)

theorem length_methodBytes (t : TraceMethod) (simTime : UInt64) (currentPid : Int32)
    (addr : UInt32) (callType : Int32) :
    (methodBytes t simTime currentPid addr callType).length =
      wordBytes (simTime - t.prevTime).toNat + signedBytes (addr - t.prevAddr).toInt32.toInt +
        signedBytes (currentPid - t.prevPid).toInt + wordBytes (intWord callType).toNat := by
  rw [methodBytes, List.length_append, List.length_append, List.length_append,
    length_varintEncode, length_varintEncode, length_varintEncodeSigned, length_varintEncodeSigned,
    Int32.toInt_toInt64, Int32.toInt_toInt64]

theorem sound_traceInterpretedMethod (t : TraceMethod) (simTime : UInt64) (currentPid : Int32)
    (addr : UInt32) (callType : Int32) :
    (traceInterpretedMethod t simTime currentPid addr callType).compressed.Sound kCompressedSize ↔
      t.compressed.Sound kCompressedSize ∧
        (methodBytes t simTime currentPid addr callType).length ≤ kMaxMethodCompressed := by
  rw [← Int.ofNat_le]
  refine Outgoing.sound_storeWithin_iff ?_
  have htime := (wordBytes_spec (simTime - t.prevTime).toNat).2.1
  have haddr := signedBytes_le (addr - t.prevAddr).toInt32.toInt
  have hpid := signedBytes_le (currentPid - t.prevPid).toInt
  have htype := (wordBytes_spec (intWord callType).toNat).2.1
  rw [length_methodBytes, kCompressedSize]
  omega

/-- What is stored before the end. -/
structure StoredSound (w : World) : Prop where
  load : w.load.compressed.Sound kCompressedSize
  store : w.store.compressed.Sound kCompressedSize
  exc : w.exc.compressed.Sound kCompressedSize
  pid : w.pid.compressed.Sound kCompressedSize
  method : w.method.compressed.Sound kCompressedSize

theorem storedSound_start (pcs : Nat → UInt32) : StoredSound (start pcs) :=
  ⟨Outgoing.sound_empty, Outgoing.sound_empty, Outgoing.sound_empty, Outgoing.sound_empty,
    Outgoing.sound_empty⟩

variable {w w' : World} {ok : Prop}

theorem StoredSound.pid_iff (hload : w'.load = w.load) (hstore : w'.store = w.store)
    (hexc : w'.exc = w.exc) (hmethod : w'.method = w.method)
    (h : w'.pid.compressed.Sound kCompressedSize ↔ w.pid.compressed.Sound kCompressedSize ∧ ok) :
    StoredSound w' ↔ StoredSound w ∧ ok := by
  constructor
  · intro hw
    obtain ⟨hpid, hok⟩ := h.mp hw.pid
    exact ⟨⟨hload ▸ hw.load, hstore ▸ hw.store, hexc ▸ hw.exc, hpid, hmethod ▸ hw.method⟩, hok⟩
  · rintro ⟨hw, hok⟩
    exact ⟨hload ▸ hw.load, hstore ▸ hw.store, hexc ▸ hw.exc, h.mpr ⟨hw.pid, hok⟩,
      hmethod ▸ hw.method⟩

theorem storedSound_step {e : Event} (hvalid : e.Valid) :
    StoredSound (step w e) ↔ StoredSound w ∧ Roomy w e := by
  cases e with
  | clock | generate | bb | insn =>
    exact ⟨fun h => ⟨⟨h.load, h.store, h.exc, h.pid, h.method⟩, trivial⟩,
      fun ⟨h, _⟩ => ⟨h.load, h.store, h.exc, h.pid, h.method⟩⟩
  | load addr =>
    have hiff := sound_traceAddr w.load w.simTime addr
    exact ⟨fun h => ⟨⟨hiff.mp h.load, h.store, h.exc, h.pid, h.method⟩, trivial⟩,
      fun ⟨h, _⟩ => ⟨hiff.mpr h.load, h.store, h.exc, h.pid, h.method⟩⟩
  | store addr =>
    have hiff := sound_traceAddr w.store w.simTime addr
    exact ⟨fun h => ⟨⟨h.load, hiff.mp h.store, h.exc, h.pid, h.method⟩, trivial⟩,
      fun ⟨h, _⟩ => ⟨h.load, hiff.mpr h.store, h.exc, h.pid, h.method⟩⟩
  | exception targetPc =>
    have hiff := sound_traceException w.exc w.bb w.simTime targetPc
    exact ⟨fun h => ⟨⟨h.load, h.store, (hiff.mp h.exc).1, h.pid, h.method⟩, (hiff.mp h.exc).2⟩,
      fun ⟨h, hroom⟩ => ⟨h.load, h.store, hiff.mpr ⟨h.exc, hroom⟩, h.pid, h.method⟩⟩
  | switch pid => exact StoredSound.pid_iff rfl rfl rfl rfl (sound_tracePid1arg pid (by decide))
  | fork tgid pid => exact StoredSound.pid_iff rfl rfl rfl rfl (sound_tracePid2arg tgid pid (by decide))
  | clone tgid pid => exact StoredSound.pid_iff rfl rfl rfl rfl (sound_tracePid2arg tgid pid (by decide))
  | exit exitcode => exact StoredSound.pid_iff rfl rfl rfl rfl (sound_tracePid1arg exitcode (by decide))
  | name s => exact StoredSound.pid_iff rfl rfl rfl rfl (sound_traceName w.currentPid hvalid)
  | execve argv len => exact StoredSound.pid_iff rfl rfl rfl rfl (sound_traceExecve hvalid.1 hvalid.2)
  | mmap vstart vend offset path =>
    exact StoredSound.pid_iff rfl rfl rfl rfl (sound_traceMmap vstart vend offset hvalid)
  | munmap vstart vend =>
    exact StoredSound.pid_iff rfl rfl rfl rfl
      ((sound_traceMunmap vstart vend).trans (and_iff_left trivial).symm)
  | dynamicSymbolAdd vaddr s =>
    exact StoredSound.pid_iff rfl rfl rfl rfl
      ((sound_traceDynamicSymbolAdd vaddr hvalid).trans (and_iff_left trivial).symm)
  | dynamicSymbolRemove vaddr =>
    exact StoredSound.pid_iff rfl rfl rfl rfl
      ((sound_traceDynamicSymbolRemove vaddr).trans (and_iff_left trivial).symm)
  | initName tgid pid s =>
    exact StoredSound.pid_iff rfl rfl rfl rfl (sound_traceInitName tgid pid hvalid)
  | interpretedMethod addr callType =>
    have hiff := sound_traceInterpretedMethod w.method w.simTime w.currentPid addr callType
    rw [length_methodBytes] at hiff
    exact ⟨fun h => ⟨⟨h.load, h.store, h.exc, h.pid, (hiff.mp h.method).1⟩, (hiff.mp h.method).2⟩,
      fun ⟨h, hroom⟩ => ⟨h.load, h.store, h.exc, h.pid, hiff.mpr ⟨h.method, hroom⟩⟩⟩

theorem sound_iff : Sound w ↔ StoredSound w ∧ RoomAtEnd w := by
  rw [Sound, traceCleanup]
  simp only [List.forall_mem_cons, List.not_mem_nil, false_imp_iff, implies_true, and_true]
  rw [sound_cleanupBB_iff, and_iff_right (sound_cleanupInsn w.insn), sound_compressTraceAddresses,
    sound_compressTraceAddresses]
  constructor
  · rintro ⟨hroom, hload, hstore, hexc, hpid, hmethod⟩
    exact ⟨⟨hload, hstore, hexc, hpid, hmethod⟩, hroom⟩
  · rintro ⟨h, hroom⟩
    exact ⟨hroom, h.load, h.store, h.exc, h.pid, h.method⟩

/-- All records of a run are stored inside of the buffers, and fit into what is reserved for them,
just where each has room when it is made, and the extra record has room at the end. -/
theorem sound_iff_roomy (pcs : Nat → UInt32) {events : List Event}
    (hvalid : ∀ e ∈ events, e.Valid) :
    Sound (events.foldl step (start pcs)) ↔
      Along step Roomy (start pcs) events ∧ RoomAtEnd (events.foldl step (start pcs)) := by
  have hdom : Along step (fun _ e => e.Valid) (start pcs) events := fun before e hbefore =>
    hvalid e (hbefore.subset (List.mem_append_right before List.mem_cons_self))
  rw [sound_iff, Along.invariant_iff hdom fun _ _ => storedSound_step,
    and_iff_right (storedSound_start pcs)]

theorem sound_iff_roomy_exit :
    Sound ([.clock 34359738367, .exit (-1)].foldl step (start fun _ => 0)) ↔
      Along step Roomy (start fun _ => 0) [.clock 34359738367, .exit (-1)] ∧
        RoomAtEnd ([.clock 34359738367, .exit (-1)].foldl step (start fun _ => 0)) :=
  sound_iff_roomy _ (by decide)

theorem length_pending_traceName (t : TracePid) (simTime : UInt64) (currentPid : Int32)
    (name : List UInt8) :
    (traceName t simTime currentPid name).compressed.pending.length =
      (if (kCompressedSize : Int) ≤
          t.compressed.pending.length + (name.length + kMaxNameCompressed) then 0
        else t.compressed.pending.length) +
        ([simTime - t.prevTime, kPidName, intWord currentPid,
          .ofNat name.length].flatMap varintEncode).length + name.length := by
  rw [traceName, TracePid.record, Outgoing.length_pending_storeWithin, List.length_append,
    Nat.add_assoc]

/-- Two names fill the buffer up to 8176 bytes, so that there is room for the 15 bytes that are
reserved for an exit code. -/
def exitAfterNames : List Event :=
  [.name (.replicate 4095 97), .name (.replicate 4071 97), .clock 4398046511105, .exit (-1)]

/-- The record of a negative exit code has 19 bytes, and ends behind the buffer. -/
theorem not_sound_exitAfterNames :
    ¬Sound (exitAfterNames.foldl step (start fun _ => 0)) ∧
      ⟨8176, 19, 15⟩ ∈ (exitAfterNames.foldl step (start fun _ => 0)).pid.compressed.log := by
  have hlog : ⟨8176, 19, 15⟩ ∈
      (exitAfterNames.foldl step (start fun _ => 0)).pid.compressed.log := by
    change _ ∈ (tracePid1arg (traceName (traceName createTracePid 1 0 (.replicate 4095 97)) 1 0
      (.replicate 4071 97)) 4398046511105 (-1) kPidExit).compressed.log
    have hfirst : (traceName createTracePid 1 0
        (.replicate 4095 97)).compressed.pending.length = 4100 := by
      rw [length_pending_traceName, List.length_replicate]
      decide
    have hsecond : (traceName (traceName createTracePid 1 0 (.replicate 4095 97)) 1 0
        (.replicate 4071 97)).compressed.pending.length = 8176 := by
      rw [length_pending_traceName, hfirst, List.length_replicate]
      decide
    rw [tracePid1arg, TracePid.record, Outgoing.log_storeWithin, hsecond]
    exact List.mem_append_right _ (List.mem_singleton.mpr (by decide))
  have hfits : (⟨8176, 19, 15⟩ : Stored).Fits kCompressedSize → False :=
    fun h => absurd h.reserved (by decide)
  exact ⟨fun h => hfits ((sound_iff.mp h).1.pid _ hlog), hlog⟩

end Runs

end M2M.Trace.Streams
