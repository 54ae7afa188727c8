/-
# Recording and replaying a service

Model of `Recorder` and `Replayer` (`userspace/devbus/src/record.cpp`): what the one writes to a
file and what the other makes of it.  A recording is a header, the name of the service and
records of a fixed size, in native byte order; it has no index and no checksum.

The `Replayer` reads record after record until the file ends, and publishes each payload on a
service of the recorded type.  What it does not control is its `Environment`: whether it is told
to go on, whether a loan succeeds, and the time of each `send`.  It also waits, for subscribers
and for the recorded time of a sample; that changes neither what it publishes nor its counters.

`recording_replayed` is the round trip, of a file that has been cut off anywhere: its longest
prefix of complete records is replayed, and a recording of the replay has the same payloads.
-/
import DevicePlatform.FixedCodec

namespace Devbus

/-! ## The file -/

/-- `TypeInfo`. -/
structure TypeInfo where
  hash : BitVec 64
  size : ℕ
  align : ℕ
  deriving DecidableEq, Repr

/-- The fields of `SegmentHeader` that identify the payload type. -/
structure TypeWords where
  typeHash : BitVec 64
  typeSize : BitVec 32
  typeAlign : BitVec 32
  deriving DecidableEq, Repr

/-- What the constructor of `PublisherCore` writes there. -/
def TypeWords.ofType (type : TypeInfo) : TypeWords where
  typeHash := type.hash
  typeSize := BitVec.ofNat 32 type.size
  typeAlign := BitVec.ofNat 32 type.align

/-- `service_type`, of a segment that is compatible. -/
def TypeWords.serviceType (h : TypeWords) : TypeInfo :=
  ⟨h.typeHash, h.typeSize.toNat, h.typeAlign.toNat⟩

/-- `RecordFileHeader`. -/
structure RecordFileHeader where
  magic : List.Vector (BitVec 8) 8
  version : BitVec 32
  typeSize : BitVec 32
  typeHash : BitVec 64
  typeAlign : BitVec 32
  nameLen : BitVec 32

/-- `kRecordMagic`: "DBUSREC1". -/
def recordMagic : List.Vector (BitVec 8) 8 :=
  ⟨[0x44, 0x42, 0x55, 0x53, 0x52, 0x45, 0x43, 0x31], rfl⟩

/-- The layout of a `RecordFileHeader`. -/
def headerCodec : FixedCodec RecordFileHeader :=
  ((FixedCodec.bytes 8).prod <| (FixedCodec.le 4).prod <| (FixedCodec.le 4).prod <|
    (FixedCodec.le 8).prod <| (FixedCodec.le 4).prod <| FixedCodec.le 4).map
    (fun (magic, version, typeSize, typeHash, typeAlign, nameLen) =>
      ⟨magic, version, typeSize, typeHash, typeAlign, nameLen⟩)
    (fun h => (h.magic, h.version, h.typeSize, h.typeHash, h.typeAlign, h.nameLen))
    (fun _ => rfl)

/-- `RecordPrefix`. -/
structure RecordPrefix where
  seq : BitVec 64
  publishNs : BitVec 64

/-- The layout of a `RecordPrefix`. -/
def prefixCodec : FixedCodec RecordPrefix :=
  ((FixedCodec.le 8).prod (FixedCodec.le 8)).map (fun (seq, publishNs) => ⟨seq, publishNs⟩)
    (fun p => (p.seq, p.publishNs)) (fun _ => rfl)

/-- A record of a recording: a prefix, and a payload of `size` bytes. -/
structure FileRecord (size : ℕ) where
  pre : RecordPrefix
  payload : List.Vector (BitVec 8) size

/-- The layout of a record. -/
def recordCodec (size : ℕ) : FixedCodec (FileRecord size) :=
  (prefixCodec.prod (FixedCodec.bytes size)).map (fun (pre, payload) => ⟨pre, payload⟩)
    (fun r => (r.pre, r.payload)) (fun _ => rfl)

/-! ## Recording -/

/-- A `Recorder` of a type: its file, and `stats_`. -/
structure Recorder (type : TypeInfo) where
  file : List (BitVec 8)
  samples : ℕ
  bytes : ℕ

namespace Recorder

variable {type : TypeInfo}

/-- The header of a recording. -/
def header (type : TypeInfo) (service : List (BitVec 8)) : RecordFileHeader where
  magic := recordMagic
  version := 1
  typeSize := BitVec.ofNat 32 type.size
  typeHash := type.hash
  typeAlign := BitVec.ofNat 32 type.align
  nameLen := BitVec.ofNat 32 service.length

/-- The constructor. -/
def create (type : TypeInfo) (service : List (BitVec 8)) : Recorder type where
  file := headerCodec.encode (header type service) ++ service
  samples := 0
  bytes := headerCodec.size + service.length

/-- `poll`, when `try_receive` yields the samples `received` before it finds the queue empty. -/
def poll (r : Recorder type) (received : List (FileRecord type.size)) : Recorder type where
  file := received.foldl
    (fun file s =>
      file ++ prefixCodec.encode s.pre ++ (FixedCodec.bytes type.size).encode s.payload)
    r.file
  samples := r.samples + received.length
  bytes := r.bytes + received.length * (prefixCodec.size + type.size)

/-- A recording: the samples of each `poll`. -/
def record (type : TypeInfo) (service : List (BitVec 8))
    (polls : List (List (FileRecord type.size))) : Recorder type :=
  polls.foldl poll (create type service)

end Recorder

/-! ## Replaying -/

/-- A `Replayer`: what it has read of the header, and the rest of the file. -/
structure Replayer where
  type : TypeInfo
  service : List (BitVec 8)
  file : List (BitVec 8)

/-- `ReplayStats`, and the samples that have been sent. -/
structure Replayed (size : ℕ) where
  sent : ℕ
  loanFailures : ℕ
  published : List (FileRecord size)

/-- The bytes of the payloads. -/
def payloads {size : ℕ} (records : List (FileRecord size)) : List (List (BitVec 8)) :=
  records.map fun r => r.payload.toList

/-- What happens around the record with the number `k`. -/
structure Environment where
  /-- The answer of `keep_going`. -/
  keepGoing : ℕ → Bool
  /-- Whether `loan` succeeds. -/
  loan : ℕ → Bool
  /-- The time of `send`. -/
  clock : ℕ → BitVec 64

namespace Replayer

/-- The constructor. -/
def create (path : String) (file : List (BitVec 8)) : Except String Replayer :=
  match headerCodec.read file with
  | none => .error ("devbus: " ++ path ++ " is not a devbus recording")
  | some (h, rest) =>
      if h.magic ≠ recordMagic ∨ h.version ≠ 1 ∨ h.typeSize = 0 ∨ h.nameLen > 4096 then
        .error ("devbus: " ++ path ++ " is not a devbus recording")
      else if rest.length < h.nameLen.toNat then
        .error ("devbus: " ++ path ++ " is truncated")
      else .ok
        { type := ⟨h.typeHash, h.typeSize.toNat, h.typeAlign.toNat⟩
          service := rest.take h.nameLen.toNat
          file := rest.drop h.nameLen.toNat }

/-- The condition of the loop of `run`: a prefix and a payload are read. -/
def readRecord (size : ℕ) (file : List (BitVec 8)) :
    Option (FileRecord size × List (BitVec 8)) := do
  let (pre, rest) ← prefixCodec.read file
  let (payload, rest) ← (FixedCodec.bytes size).read rest
  return (⟨pre, payload⟩, rest)

theorem length_of_readRecord {size : ℕ} {file rest : List (BitVec 8)} {r : FileRecord size}
    (h : readRecord size file = some (r, rest)) :
    rest.length + (prefixCodec.size + size) = file.length := by
  unfold readRecord at h
  obtain ⟨⟨pre, rest₁⟩, h₁, h⟩ := Option.bind_eq_some_iff.mp h
  obtain ⟨⟨payload, rest₂⟩, h₂, h⟩ := Option.bind_eq_some_iff.mp h
  cases h
  have hlen₁ := prefixCodec.length_of_read h₁
  have hlen₂ : rest.length + size = rest₁.length := (FixedCodec.bytes size).length_of_read h₂
  omega

/-- The loop of `run`. -/
def replayLoop (size : ℕ) (env : Environment) (file : List (BitVec 8)) (st : Replayed size) :
    Replayed size :=
  match _h : readRecord size file with
  | none => st
  | some (r, rest) =>
      let k := st.sent + st.loanFailures
      if env.keepGoing k then
        if env.loan k then
          -- `send` stamps the sample
          replayLoop size env rest
            { st with
              sent := st.sent + 1
              published := st.published ++
                [⟨⟨BitVec.ofNat 64 (st.sent + 1), env.clock k⟩, r.payload⟩] }
        else replayLoop size env rest { st with loanFailures := st.loanFailures + 1 }
      else st
termination_by file.length
decreasing_by
  all_goals
    have hlen := length_of_readRecord _h
    have hpos : 0 < prefixCodec.size := by decide
    omega

/-- `run`. -/
def run (rp : Replayer) (env : Environment) : Replayed rp.type.size :=
  replayLoop rp.type.size env rp.file ⟨0, 0, []⟩

end Replayer

/-! ## What is on the file -/

namespace Recorder

variable {type : TypeInfo}

/-- What two calls receive may as well have been received in one. -/
theorem poll_append (r : Recorder type) (l l' : List (FileRecord type.size)) :
    r.poll (l ++ l') = (r.poll l).poll l' := by
  simp only [poll, List.foldl_append, List.length_append, Nat.add_assoc, Nat.add_mul]

theorem foldl_poll (polls : List (List (FileRecord type.size))) (r : Recorder type) :
    polls.foldl poll r = r.poll polls.flatten := by
  induction polls generalizing r with
  | nil => simp only [poll, List.foldl_nil, List.flatten_nil, List.length_nil, Nat.zero_mul,
      Nat.add_zero]
  | cons received polls ih => rw [List.foldl_cons, ih, List.flatten_cons, poll_append]

theorem file_poll (r : Recorder type) (received : List (FileRecord type.size)) :
    (r.poll received).file = r.file ++ received.flatMap (recordCodec type.size).encode := by
  induction received generalizing r with
  | nil => exact (List.append_nil r.file).symm
  | cons s received ih =>
      rw [← List.singleton_append, poll_append, ih, List.flatMap_append, ← List.append_assoc,
        List.flatMap_singleton]
      exact congrArg (· ++ _) (List.append_assoc ..)

/-- A recording consists of its header, the name and the records, however they were received. -/
theorem file_record (type : TypeInfo) (service : List (BitVec 8))
    (polls : List (List (FileRecord type.size))) :
    (record type service polls).file = headerCodec.encode (header type service) ++
      (service ++ polls.flatten.flatMap (recordCodec type.size).encode) := by
  rw [record, foldl_poll, file_poll, create, List.append_assoc]

end Recorder

namespace Replayer

variable {size : ℕ} {env : Environment}

theorem readRecord_append (r : FileRecord size) (rest : List (BitVec 8)) :
    readRecord size ((recordCodec size).encode r ++ rest) = some (r, rest) := by
  have hencode : (recordCodec size).encode r ++ rest =
      prefixCodec.encode r.pre ++ ((FixedCodec.bytes size).encode r.payload ++ rest) :=
    List.append_assoc ..
  rw [hencode, readRecord, FixedCodec.read_append, Option.bind_eq_bind, Option.bind_some]
  dsimp only
  rw [FixedCodec.read_append]
  rfl

theorem readRecord_short {file : List (BitVec 8)} (h : file.length < (recordCodec size).size) :
    readRecord size file = none := by
  cases hr : readRecord size file with
  | none => rfl
  | some x =>
      have hlen := length_of_readRecord hr
      have hsize : (recordCodec size).size = prefixCodec.size + size := rfl
      omega

/-- What a replay of records comes to, from the record with the number `k` on. -/
def replayedPayloads (env : Environment) (k : ℕ) (records : List (FileRecord size)) :
    List (List (BitVec 8)) :=
  ((records.zipIdx k).filter fun x => env.loan x.2).map fun x => x.1.payload.toList

theorem replayedPayloads_cons (k : ℕ) (r : FileRecord size) (records : List (FileRecord size)) :
    replayedPayloads env k (r :: records) =
      (if env.loan k then [r.payload.toList] else []) ++ replayedPayloads env (k + 1) records := by
  unfold replayedPayloads
  rw [List.zipIdx_cons, List.filter_cons]
  split <;> rfl

/-- **The loop**, on complete records and part of another one. -/
theorem replayLoop_spec (hgo : ∀ k, env.keepGoing k = true) {tail : List (BitVec 8)}
    (htail : tail.length < (recordCodec size).size) (records : List (FileRecord size))
    (st : Replayed size) :
    let r := replayLoop size env (records.flatMap (recordCodec size).encode ++ tail) st
    r.sent + r.loanFailures = st.sent + st.loanFailures + records.length ∧
      payloads r.published =
        payloads st.published ++ replayedPayloads env (st.sent + st.loanFailures) records := by
  induction records generalizing st with
  | nil =>
      have hnone := readRecord_short htail
      rw [List.flatMap_nil, List.nil_append, replayLoop]
      split
      · exact ⟨rfl, (List.append_nil _).symm⟩
      · next hsome => cases hnone.symm.trans hsome
  | cons r records ih =>
      have hread := readRecord_append r (records.flatMap (recordCodec size).encode ++ tail)
      rw [List.flatMap_cons, List.append_assoc, replayLoop]
      split
      · next hnone => cases hread.symm.trans hnone
      · next hsome =>
        cases hread.symm.trans hsome
        dsimp only
        rw [if_pos (hgo _), replayedPayloads_cons, List.length_cons]
        split
        · obtain ⟨hcount, hpub⟩ := ih { st with
            sent := st.sent + 1
            published := st.published ++
              [⟨⟨BitVec.ofNat 64 (st.sent + 1), env.clock (st.sent + st.loanFailures)⟩,
                r.payload⟩] }
          dsimp only at hcount hpub
          refine ⟨by omega, ?_⟩
          rw [hpub, payloads, List.map_append, List.append_assoc, Nat.add_right_comm]
          rfl
        · obtain ⟨hcount, hpub⟩ := ih { st with loanFailures := st.loanFailures + 1 }
          dsimp only at hcount hpub
          refine ⟨by omega, ?_⟩
          rw [hpub, List.nil_append, Nat.add_assoc]

/-- The constructor, on the header of a recording. -/
theorem create_header (path : String) {h : TypeWords} (hsize : h.typeSize ≠ 0)
    {service : List (BitVec 8)} (hname : service.length ≤ 4096) (rest : List (BitVec 8)) :
    create path (headerCodec.encode (Recorder.header h.serviceType service) ++ rest) =
      if rest.length < service.length then .error ("devbus: " ++ path ++ " is truncated")
      else .ok ⟨h.serviceType, rest.take service.length, rest.drop service.length⟩ := by
  have hlen : (BitVec.ofNat 32 service.length).toNat = service.length := by
    rw [BitVec.toNat_ofNat]
    omega
  have hword : ∀ w : BitVec 32, BitVec.ofNat 32 w.toNat = w := fun w => by simp
  have hok : ¬ ((Recorder.header h.serviceType service).magic ≠ recordMagic ∨
      (Recorder.header h.serviceType service).version ≠ 1 ∨
      (Recorder.header h.serviceType service).typeSize = 0 ∨
      (Recorder.header h.serviceType service).nameLen > 4096) := by
    rintro (hm | hv | ht | hn)
    · exact hm rfl
    · exact hv rfl
    · exact hsize ((hword h.typeSize).symm.trans ht)
    · have hlt : 4096 < (BitVec.ofNat 32 service.length).toNat := hn
      omega
  unfold create
  rw [FixedCodec.read_append]
  dsimp only
  rw [if_neg hok]
  simp only [Recorder.header, hlen, TypeWords.serviceType, hword]

/-- If every loan succeeds, every payload is published. -/
theorem replayedPayloads_eq (hloan : ∀ k, env.loan k = true) (k : ℕ)
    (records : List (FileRecord size)) : replayedPayloads env k records = payloads records := by
  induction records generalizing k with
  | nil => rfl
  | cons r records ih =>
      rw [replayedPayloads_cons, if_pos (hloan k), ih]
      rfl

/-- Where the records of a recording start. -/
def start (service : List (BitVec 8)) : ℕ := headerCodec.size + service.length

/-- The records that are complete in the first `n` bytes of a recording. -/
def completeIn (service : List (BitVec 8)) (n : ℕ) (records : List (FileRecord size)) :
    List (FileRecord size) :=
  records.take ((n - start service) / (recordCodec size).size)

section Cut

variable {h : TypeWords} {service : List (BitVec 8)}

/-- A recording that is cut off before its first record. -/
theorem create_cut (path : String) (hsize : h.typeSize ≠ 0) (hname : service.length ≤ 4096)
    (polls : List (List (FileRecord h.serviceType.size))) {n : ℕ} (hn : n < start service) :
    ∃ e, create path ((Recorder.record h.serviceType service polls).file.take n) = .error e := by
  have hlen := headerCodec.length_encode (Recorder.header h.serviceType service)
  unfold start at hn
  rw [Recorder.file_record]
  rcases Nat.lt_or_ge n headerCodec.size with hlt | hge
  · refine ⟨"devbus: " ++ path ++ " is not a devbus recording", ?_⟩
    have hshort : headerCodec.read ((headerCodec.encode (Recorder.header h.serviceType service) ++
        (service ++ polls.flatten.flatMap (recordCodec h.serviceType.size).encode)).take n) =
        none := by
      apply headerCodec.read_short
      rw [List.length_take]
      omega
    rw [create, hshort]
  · refine ⟨"devbus: " ++ path ++ " is truncated", ?_⟩
    rw [List.take_append, List.take_of_length_le (by omega), create_header path hsize hname,
      if_pos]
    rw [List.length_take]
    omega

/-- **A recording that is cut off anywhere behind the name.** -/
theorem replay_cut (path : String) (hsize : h.typeSize ≠ 0) (hname : service.length ≤ 4096)
    (polls : List (List (FileRecord h.serviceType.size))) {n : ℕ} (hn : start service ≤ n) :
    ∃ rp, create path ((Recorder.record h.serviceType service polls).file.take n) = .ok rp ∧
      rp.type = h.serviceType ∧ rp.service = service ∧
      ∀ env : Environment, (∀ k, env.keepGoing k = true) →
        (rp.run env).sent + (rp.run env).loanFailures =
            (completeIn service n polls.flatten).length ∧
          payloads (rp.run env).published =
            replayedPayloads env 0 (completeIn service n polls.flatten) := by
  have hlen := headerCodec.length_encode (Recorder.header h.serviceType service)
  unfold start at hn
  have hpos : 0 < (recordCodec h.serviceType.size).size :=
    Nat.add_pos_left (by decide) h.serviceType.size
  obtain ⟨tail, htake, htail⟩ := (recordCodec h.serviceType.size).take_flatMap_encode hpos
    polls.flatten (n - start service)
  have hfile : (Recorder.record h.serviceType service polls).file.take n =
      headerCodec.encode (Recorder.header h.serviceType service) ++ (service ++
        ((completeIn service n polls.flatten).flatMap (recordCodec h.serviceType.size).encode ++
          tail)) := by
    rw [Recorder.file_record, List.take_append, List.take_of_length_le (by omega), hlen,
      List.take_append, List.take_of_length_le (by omega), Nat.sub_sub, ← start, htake, completeIn]
  refine ⟨⟨h.serviceType, service, (completeIn service n polls.flatten).flatMap
    (recordCodec h.serviceType.size).encode ++ tail⟩, ?_, rfl, rfl, fun env hgo => ?_⟩
  · rw [hfile, create_header path hsize hname, if_neg, List.take_left, List.drop_left]
    rw [List.length_append]
    omega
  · obtain ⟨hcount, hpub⟩ :=
      replayLoop_spec hgo htail (completeIn service n polls.flatten) ⟨0, 0, []⟩
    rw [Nat.zero_add, Nat.zero_add] at hcount
    exact ⟨hcount, hpub⟩

/-- A recording that is not cut off. -/
theorem replay_whole (path : String) (hsize : h.typeSize ≠ 0) (hname : service.length ≤ 4096)
    (polls : List (List (FileRecord h.serviceType.size))) :
    ∃ rp, create path (Recorder.record h.serviceType service polls).file = .ok rp ∧
      rp.type = h.serviceType ∧ rp.service = service ∧
      ∀ env : Environment, (∀ k, env.keepGoing k = true ∧ env.loan k = true) →
        payloads (rp.run env).published = payloads polls.flatten := by
  have hlen : (Recorder.record h.serviceType service polls).file.length =
      start service + polls.flatten.length * (recordCodec h.serviceType.size).size := by
    rw [Recorder.file_record, List.length_append, List.length_append, headerCodec.length_encode,
      FixedCodec.length_flatMap_encode, start, Nat.add_assoc]
  have hpos : 0 < (recordCodec h.serviceType.size).size :=
    Nat.add_pos_left (by decide) h.serviceType.size
  obtain ⟨rp, hrp, htype, hservice, hrun⟩ := replay_cut path hsize hname polls
    (hlen ▸ Nat.le_add_right _ _)
  rw [List.take_length] at hrp
  refine ⟨rp, hrp, htype, hservice, fun env henv => ?_⟩
  rw [(hrun env fun k => (henv k).1).2, replayedPayloads_eq fun k => (henv k).2, completeIn, hlen,
    Nat.add_sub_cancel_left, Nat.mul_div_cancel _ hpos, List.take_length]

end Cut

/-- The words of a replayed service are those of the original one. -/
theorem ofType_serviceType (h : TypeWords) : TypeWords.ofType h.serviceType = h := by
  obtain ⟨hash, size, align⟩ := h
  simp [TypeWords.ofType, TypeWords.serviceType]

end Replayer

open Replayer in
/-- **Recording and replaying.**  A recording that is cut off in its header or in the name is
refused.  Cut off anywhere behind (or not at all) it is accepted, and its complete records are
replayed in order, except for those whose loan fails; if none does, a recording of the replay
replays the same payloads. -/
theorem recording_replayed (h : TypeWords) (hsize : h.typeSize ≠ 0) (service : List (BitVec 8))
    (hname : service.length ≤ 4096) (polls : List (List (FileRecord h.serviceType.size)))
    (path : String) (n : ℕ) :
    (n < start service →
      ∃ e, create path ((Recorder.record h.serviceType service polls).file.take n) = .error e) ∧
    (start service ≤ n →
      ∃ rp, create path ((Recorder.record h.serviceType service polls).file.take n) = .ok rp ∧
        rp.type = h.serviceType ∧ rp.service = service ∧
        ∀ env : Environment, (∀ k, env.keepGoing k = true) →
          (rp.run env).sent + (rp.run env).loanFailures =
              (completeIn service n polls.flatten).length ∧
          payloads (rp.run env).published =
              replayedPayloads env 0 (completeIn service n polls.flatten) ∧
          ((∀ k, env.loan k = true) →
            payloads (rp.run env).published = payloads (completeIn service n polls.flatten)) ∧
          ∀ service' : List (BitVec 8), service'.length ≤ 4096 →
            ∀ polls' : List (List (FileRecord (TypeWords.ofType rp.type).serviceType.size)),
              payloads polls'.flatten = payloads (rp.run env).published →
            ∃ rp', create path
                (Recorder.record (TypeWords.ofType rp.type).serviceType service' polls').file =
                  .ok rp' ∧
              rp'.type = h.serviceType ∧ rp'.service = service' ∧
              ∀ env' : Environment, (∀ k, env'.keepGoing k = true ∧ env'.loan k = true) →
                payloads (rp'.run env').published = payloads (rp.run env).published) := by
  refine ⟨fun hn => create_cut path hsize hname polls hn, fun hn => ?_⟩
  obtain ⟨rp, hrp, htype, hservice, hrun⟩ := replay_cut path hsize hname polls hn
  refine ⟨rp, hrp, htype, hservice, fun env hgo => ?_⟩
  obtain ⟨hcount, hpub⟩ := hrun env hgo
  refine ⟨hcount, hpub, fun hloan => hpub.trans (replayedPayloads_eq hloan 0 _), ?_⟩
  intro service' hname' polls' hpolls
  have hwords : TypeWords.ofType rp.type = h := by rw [htype, ofType_serviceType]
  obtain ⟨rp', hrp', htype', hservice', hrun'⟩ := replay_whole path
    (by rw [hwords]; exact hsize) hname' polls'
  refine ⟨rp', hrp', htype'.trans (by rw [hwords]), hservice', fun env' henv' => ?_⟩
  exact (hrun' env' henv').trans hpolls

/-- Two records of one byte each, of which the second is cut off. -/
def twoRecords : List (List (FileRecord (TypeWords.serviceType ⟨0, 1, 1⟩).size)) :=
  [[⟨⟨1, 10⟩, ⟨[7], rfl⟩⟩], [⟨⟨2, 20⟩, ⟨[9], rfl⟩⟩]]

/-- The first one is replayed. -/
theorem recording_replayed_first :
    (TypeWords.mk 0 1 1).typeSize ≠ 0 ∧ [0x61#8].length ≤ 4096 ∧
    ∃ rp, Replayer.create "rec"
        ((Recorder.record (TypeWords.serviceType ⟨0, 1, 1⟩) [0x61] twoRecords).file.take 60) =
          .ok rp ∧
      rp.service = [0x61] ∧
      payloads (rp.run ⟨fun _ => true, fun _ => true, fun _ => 0⟩).published = [[7]] := by
  obtain ⟨rp, hrp, -, hservice, hrun⟩ := (recording_replayed ⟨0, 1, 1⟩ (by decide)
    [0x61] (by decide) twoRecords "rec" 60).2 (by decide)
  obtain ⟨-, -, hpub, -⟩ := hrun ⟨fun _ => true, fun _ => true, fun _ => 0⟩ fun _ => rfl
  exact ⟨by decide, by decide, rp, hrp, hservice, (hpub fun _ => rfl).trans (by decide)⟩

end Devbus
