import RoomSpeaker.Verified.CircleRuns
import RoomSpeaker.Verified.FrameSpec
import RoomSpeaker.Verified.Isolation
import RoomSpeaker.Verified.PilotView

/-!
# The pilot's target and the gate of the other clients

`CLI_SYNC_PERCENT` is a percentage.  `set_optim_perc` takes it for one, and so do
the server's `pilot_q_perc` and the gate in `_check_stream` that compares the
two.  The pilot, when it processes a sync frame, hands it to `force_optim`, which
takes a length: its optimum becomes 50 chunks, whatever the capacity.

## Main results

* `checkStream_pilot` — the optimum a sync frame leaves the pilot with.
* `gateOpen_of_report` — a pilot that reports half of its queue opens the gate.
* `targetsAgree_iff` — the two targets are the same for exactly two capacities.
-/

namespace RoomSpeaker

open Foundation

/-- A sync frame for the pilot is received into a chunk. -/
structure PilotFrame (rq : Circle) (pk : ChunkRef) (i : StreamIn) : Prop where
  ok : (recvFrame (rq.deref pk) i.recv).ok = true
  syncs : (recvFrame (rq.deref pk) i.recv).chunk.hdr.syncs = true
  isPilot : (recvFrame (rq.deref pk) i.recv).chunk.hdr.isPilot = true

/-- The gate in `_check_stream` on a client that is not the pilot. -/
def BufHdr.gateOpen (h : BufHdr) : Prop :=
  ((h.pilotQPerc.toNat : Int) - cliSyncPercent).natAbs < synchedDelta

/-- The report a client sends after it played `cur`. -/
def Sclient.reportOf (cli : Sclient) (rq : Circle) (cur : BufHdr) : BufHdr :=
  (cli.updateFrame rq cur).qos

/-- With queues of `cap` chunks the pilot's target is `CLI_SYNC_PERCENT` percent
of its queue; and a pilot at this target opens the gate of the others. -/
structure TargetsAgree (cap : Nat) : Prop where
  optim : ∀ (cli : Sclient) (rq : Circle) (pk : ChunkRef) (i : StreamIn),
    rq.CursorInv → rq.maxqsz = cap → PilotFrame rq pk i →
    (cli.checkStream rq pk i).rq.optim =
      (rq.setOptimPerc cliSyncPercent).optim
  gate : ∀ (cli : Sclient) (rq : Circle) (cur : BufHdr) (tick : BitVec 64)
    (s : TcpSrv) (n : Nat) (q : QsendIn), rq.maxqsz = cap →
    rq.optim = (rq.setOptimPerc cliSyncPercent).optim →
    (cli.reportOf rq cur).cliQlen = (cli.reportOf rq cur).cliQoptim →
    s.pilot = Pilot.ofReport (received (cli.reportOf rq cur) tick) →
    ∀ f ∈ (s.qsend n q).frames, f.hdr.gateOpen

/-! ## The pilot -/

/-- The pilot's optimum after a sync frame: the percentage, taken for a
length. -/
theorem checkStream_pilot (cli : Sclient) {rq : Circle} {pk : ChunkRef}
    {i : StreamIn} (hinv : rq.CursorInv) (h : PilotFrame rq pk i) :
    (cli.checkStream rq pk i).rq.optim = rq.clampOptim cliSyncPercent := by
  have hsyncs := h.syncs
  have hsig : (recvFrame (rq.deref pk) i.recv).chunk.hdr.frmSig ≠ resetAll := by
    intro hreset
    simp [BufHdr.syncs, hreset, resetAll, syncData] at hsyncs
  have hpilot : ¬(recvFrame (rq.deref pk) i.recv).chunk.hdr.isPilot = false := by
    simp [h.isPilot]
  have hcur := hinv.assign pk (recvFrame (rq.deref pk) i.recv).chunk
  unfold Sclient.checkStream
  simp only [h.ok, if_true]
  unfold Sclient.onFrame
  simp only [if_neg hsig, hsyncs, if_true]
  unfold Sclient.requeue
  simp only [if_neg hpilot]
  rw [Circle.forceOptim_optim _ _ hcur.geti]
  simp [Circle.clampOptim]

/-- What `set_optim_perc` makes of the percentage. -/
theorem setOptimPerc_sync (c : Circle) (hcap : c.maxqsz < 2 ^ 31) :
    (c.setOptimPerc cliSyncPercent).optim = c.maxqsz / 2 := by
  have hsize : Circle.sizeOfInt cliSyncPercent = 50 := by decide
  show Circle.sizeOfInt cliSyncPercent * c.maxqsz % 2 ^ 64 / 100 = c.maxqsz / 2
  rw [hsize]
  omega

/-! ## The gate -/

/-- The percentage the server computes for a pilot at half of its queue. -/
theorem percent_at_half {cap : Nat} (hcap : 40 ≤ cap) :
    47 ≤ cap / 2 * 100 / (cap + 1) ∧ cap / 2 * 100 / (cap + 1) ≤ 50 := by
  constructor
  · rw [Nat.le_div_iff_mul_le (by omega)]
    omega
  · rw [Nat.div_le_iff_le_mul (by omega)]
    omega

/-- `pilot_q_perc` in every frame of a call. -/
theorem pilotQPerc_frames {s : TcpSrv} {n : Nat} {q : QsendIn} {f : Frame}
    (hf : f ∈ (s.qsend n q).frames) : f.hdr.pilotQPerc =
      BitVec.ofInt 16 ((s.pilot.qlen * 100).tdiv (s.pilot.qsz + 1)) := by
  have hhead : (s.qsendHead q.usecs).1.pilot =
      if s.newclient then { s.pilot with seq := 0, ping := 0 } else s.pilot :=
    qsend_pilot s n q
  rw [qsend_frames] at hf
  split at hf
  · cases hf
  · obtain ⟨e, _, rfl⟩ := List.mem_map.mp hf
    show BitVec.ofInt 16 (((s.qsendHead q.usecs).1.pilot.qlen * 100).tdiv
      ((s.qsendHead q.usecs).1.pilot.qsz + 1)) = _
    rw [hhead]
    split <;> rfl

/-- A pilot that reports half of a queue of `cap` chunks opens the gate. -/
theorem gateOpen_at_half {cap : Nat} (hlow : 40 ≤ cap)
    {s : TcpSrv} (hlen : s.pilot.qlen = (cap / 2 : Nat))
    (hsz : s.pilot.qsz = cap) {n : Nat} {q : QsendIn} {f : Frame}
    (hf : f ∈ (s.qsend n q).frames) : f.hdr.gateOpen := by
  obtain ⟨hmin, hmax⟩ := percent_at_half hlow
  have hperc : (s.pilot.qlen * 100).tdiv (s.pilot.qsz + 1) =
      ((cap / 2 * 100 / (cap + 1) : Nat) : Int) := by
    rw [hlen, hsz, Int.ofNat_tdiv]
    rfl
  have hbits : f.hdr.pilotQPerc.toNat = cap / 2 * 100 / (cap + 1) := by
    rw [pilotQPerc_frames hf, hperc, BitVec.ofInt_natCast, BitVec.toNat_ofNat]
    exact Nat.mod_eq_of_lt (by omega)
  unfold BufHdr.gateOpen cliSyncPercent synchedDelta
  rw [hbits]
  omega

/-- The fields of a report that the server keeps of the queue. -/
theorem pilot_of_report (cli : Sclient) (rq : Circle) (cur : BufHdr)
    (tick : BitVec 64) :
    (Pilot.ofReport (received (cli.reportOf rq cur) tick)).qlen =
        (cli.reportOf rq cur).cliQlen.toNat ∧
      (Pilot.ofReport (received (cli.reportOf rq cur) tick)).qsz =
        (rq.maxqsz % 2 ^ 16 : Nat) := by
  constructor
  · rfl
  · show ((BitVec.ofNat 16 rq.maxqsz).toNat : Int) = _
    rw [BitVec.toNat_ofNat]

/-- A pilot whose capacity fits its 16-bit report, with half of it as its
optimum, opens the gate by reporting that it holds its optimum. -/
theorem gateOpen_of_report {cap : Nat} (hlow : 40 ≤ cap) (hfits : cap < 2 ^ 16)
    (cli : Sclient) {rq : Circle} (cur : BufHdr) (tick : BitVec 64) {s : TcpSrv}
    {n : Nat} {q : QsendIn} (hcap : rq.maxqsz = cap) (hoptim : rq.optim = cap / 2)
    (hfull : (cli.reportOf rq cur).cliQlen = (cli.reportOf rq cur).cliQoptim)
    (hpilot : s.pilot = Pilot.ofReport (received (cli.reportOf rq cur) tick))
    {f : Frame} (hf : f ∈ (s.qsend n q).frames) : f.hdr.gateOpen := by
  obtain ⟨hqlen, hqsz⟩ := pilot_of_report cli rq cur tick
  have hreport : (cli.reportOf rq cur).cliQoptim = BitVec.ofNat 16 (cap / 2) := by
    rw [← hoptim]
    rfl
  have hlen : s.pilot.qlen = (cap / 2 : Nat) := by
    rw [hpilot, hqlen, hfull, hreport, BitVec.toNat_ofNat,
      Nat.mod_eq_of_lt (by omega)]
  have hsz : s.pilot.qsz = cap := by
    rw [hpilot, hqsz, hcap, Nat.mod_eq_of_lt hfits]
  exact gateOpen_at_half hlow hlen hsz hf

/-! ## The two targets -/

/-- The header of a full sync frame for the pilot. -/
def pilotHdr : BufHdr :=
  { BufHdr.zero with
    frmSig := syncData
    isPilot := true
    pilotSeq := 7
    bufLen := BitVec.ofNat 32 tcpSndLen }

/-- The frame as it comes off the socket. -/
def pilotStream : StreamIn where
  recv := [.data (pilotHdr.encode ++ List.replicate tcpSndLen 0)]
  time := 0
  tick := 0
  sends := []

private theorem hdr_of_content {k : Chunk} {x : Content} (h : k.content = x) :
    k.hdr = x.1 := congrArg Prod.fst h

/-- It is received into the first chunk of a new queue. -/
theorem pilotFrame_first {cap : Nat} (hcap : 0 < cap) :
    PilotFrame (Circle.reserve cap tcpSndLen).fed (.slot 0) pilotStream := by
  have hpool := (Circle.CursorInv.reserve cap tcpSndLen hcap).pool
  have hslot : (Circle.reserve cap tcpSndLen).fed.at' 0 =
      { Chunk.new tcpSndLen with locked := true } := by
    show ((Circle.reserve cap tcpSndLen).setLocked 0 true).at' 0 = _
    rw [Circle.at_setLocked_self _ _ _ (by rw [hpool]; exact hcap),
      Circle.at_reserve tcpSndLen hcap]
  have hlen : ((Circle.reserve cap tcpSndLen).fed.deref (.slot 0)).len =
      tcpSndLen := by
    show ((Circle.reserve cap tcpSndLen).fed.at' 0).len = tcpSndLen
    rw [hslot]
    exact List.length_replicate
  have hbytes : pilotHdr.encode ++ List.replicate tcpSndLen 0 ≠ [] :=
    List.append_ne_nil_of_left_ne_nil pilotHdr.encode_ne_nil _
  have hsock : delivered pilotStream.recv =
      pilotHdr.encode ++ (List.replicate tcpSndLen 0 ++ []) := by
    unfold pilotStream
    rw [delivered_data hbytes, delivered_nil, List.append_assoc]
  obtain ⟨hcontent, hok, -⟩ := recvFrame_frame
    ((Circle.reserve cap tcpSndLen).fed.deref (.slot 0)) hsock
    (by rw [hlen, List.length_replicate]) (by decide)
  have hhdr : (recvFrame ((Circle.reserve cap tcpSndLen).fed.deref (.slot 0))
      pilotStream.recv).chunk.hdr = pilotHdr := hdr_of_content hcontent
  constructor
  · apply hok.mpr
    rw [hlen]
    decide
  · rw [hhdr]
    decide
  · rw [hhdr]
    rfl

/-- The two targets of one queue. -/
theorem clampOptim_eq_half_iff {c : Circle} (hlow : 40 ≤ c.maxqsz) :
    c.clampOptim cliSyncPercent = c.maxqsz / 2 ↔
      c.maxqsz = 100 ∨ c.maxqsz = 101 := by
  have hsize : Circle.sizeOfInt cliSyncPercent = 50 := by decide
  unfold Circle.clampOptim
  rw [hsize]
  split
  · omega
  · omega

/-- The first sync frame of a pilot with a new queue. -/
theorem not_targetsAgree {cap : Nat} (hlow : 40 ≤ cap) (hhigh : cap < 2 ^ 31)
    (hcap : ¬(cap = 100 ∨ cap = 101)) : ¬TargetsAgree cap := by
  intro h
  have hinv : (Circle.reserve cap tcpSndLen).fed.CursorInv :=
    (Circle.CursorInv.reserve cap tcpSndLen (by omega)).fed (Nat.zero_le _)
  have hframe : PilotFrame (Circle.reserve cap tcpSndLen).fed (.slot 0)
      pilotStream := pilotFrame_first (by omega)
  have hsame := h.optim (Sclient.new 0 0) _ _ _ hinv rfl hframe
  rw [checkStream_pilot _ hinv hframe, setOptimPerc_sync _ hhigh] at hsame
  exact hcap ((clampOptim_eq_half_iff hlow).mp hsame)

/--
**The pilot's target is the percentage of its queue for two capacities.**

Only a pilot with 100 or 101 chunks ends up at `CLI_SYNC_PERCENT` percent of its
queue; for these its report of a queue at the optimum opens the gate of the
other clients.
-/
theorem targetsAgree_iff (cap : Nat) (hlow : 40 ≤ cap) (hhigh : cap < 2 ^ 31) :
    TargetsAgree cap ↔ cap = 100 ∨ cap = 101 := by
  constructor
  · intro h
    by_contra hcap
    exact not_targetsAgree hlow hhigh hcap h
  · intro hcap
    constructor
    · intro cli rq pk i hinv hsz hframe
      subst hsz
      rw [checkStream_pilot cli hinv hframe, setOptimPerc_sync rq hhigh]
      exact (clampOptim_eq_half_iff hlow).mpr hcap
    · intro cli rq cur tick s n q hsz hoptim hfull hpilot f hf
      subst hsz
      rw [setOptimPerc_sync rq hhigh] at hoptim
      have hfits : rq.maxqsz < 2 ^ 16 := by omega
      exact gateOpen_of_report hlow hfits cli cur tick rfl hoptim hfull hpilot hf

theorem targetsAgree_hundred :
    40 ≤ 100 ∧ 100 < 2 ^ 31 ∧ (TargetsAgree 100 ↔ 100 = 100 ∨ 100 = 101) :=
  ⟨by decide, by decide, targetsAgree_iff 100 (by decide) (by decide)⟩

/-- Four seconds of 44100 Hz stereo make 173 chunks: the pilot's target becomes
50 of them, and 50 percent are 86. -/
theorem targetsDiffer_four_seconds :
    ¬∀ cap : Nat, 40 ≤ cap → cap < 2 ^ 31 → TargetsAgree cap := by
  intro h
  have h173 : TargetsAgree 173 := h 173 (by decide) (by decide)
  exact not_targetsAgree (by decide) (by decide) (by decide) h173

end RoomSpeaker
