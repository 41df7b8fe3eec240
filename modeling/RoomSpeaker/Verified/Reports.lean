import RoomSpeaker.Foundation.History
import RoomSpeaker.Foundation.Mailbox
import RoomSpeaker.Verified.Playback
import RoomSpeaker.Verified.Refill
import RoomSpeaker.Verified.SrvSpec

/-!
# What a client reports

The player leaves a record of the chunk it has just played in `_qos`, over the
record that may be there; the network thread sends the record when a sync frame
comes in, and clears its signature.  So `_qos` is a box for one letter, and the
only field the network thread adds is the server's tick.

## Main results

* `reportInv_step` — the program refines the box, whatever arrives.
* `reports_are_news` — every report is the newest record, none is sent twice, and
  the server that receives it whole learns a chunk that was played.
-/

namespace RoomSpeaker

open Foundation

/-! ## The box -/

/-- A record without the tick that is added when it is sent. -/
def BufHdr.unstamped (h : BufHdr) : BufHdr := { h with srvTick := 0 }

/-- The record that waits to be sent. -/
def Sclient.waiting (cli : Sclient) : Option BufHdr :=
  if cli.qos.frmSig ≠ 0 then some cli.qos.unstamped else none

/-- What a step does to the box. -/
def Speaker.mail (s : Speaker) : SpkOp → List (Mail BufHdr)
  | .net _ => match s.net with
      | .report _ => s.cli.waiting.toList.map .take
      | _ => []
  | .play => match s.play with
      | .update hdr => [.put (s.cli.updateFrame s.rq hdr).qos.unstamped]
      | _ => []

/-- The records a step hands to `sendall`. -/
def Speaker.reports (s : Speaker) : SpkOp → List BufHdr
  | .net _ => match s.net with
      | .report pk =>
          if s.cli.qos.frmSig ≠ 0 then
            [{ s.cli.qos with srvTick := (s.rq.deref pk).hdr.srvTick }]
          else []
      | _ => []
  | .play => []

/-- The chunk that was played and not recorded yet. -/
def PlayPc.unrecorded : PlayPc → List (BitVec 32)
  | .played _ hdr | .update hdr => [hdr.curSeq]
  | _ => []

/-- The history of the box, and of the chunks played: a record names the chunk
played before it. -/
structure ReportInv (s : Speaker) (mail : List (Mail BufHdr))
    (heard : List Content) : Prop where
  box : Mailbox mail s.cli.waiting
  signed : s.cli.qos.frmSig ≠ 0 → s.cli.qos.frmSig = syncData
  named : (puts mail).map BufHdr.curSeq ++ s.play.unrecorded =
    heard.map fun x => x.1.curSeq

theorem reportInv_init (n sz : Nat) (tick : BitVec 64) (time : Int) :
    ReportInv (Speaker.init n sz tick time) [] [] where
  box := .empty
  signed := fun h => absurd rfl h
  named := rfl

/-! ## One step -/

/-- A step of the network thread that sends nothing leaves the record. -/
private theorem qos_requeue (cli : Sclient) (h : BufHdr) (optlen : Nat) (time : Int) :
    (cli.requeue h optlen time).1.qos = cli.qos := by
  unfold Sclient.requeue
  split
  · split <;> rfl
  · rfl

private theorem qos_countBps (cli : Sclient) (tick : BitVec 64) :
    (cli.countBps tick).qos = cli.qos := by
  simp only [Sclient.countBps]
  split <;> rfl

theorem qos_netStep {s : Speaker} (i : NetIn) (hnet : ∀ pk, s.net ≠ .report pk) :
    (s.netStep i).cli.qos = s.cli.qos := by
  unfold Speaker.netStep
  cases hpc : s.net with
  | lost =>
      simp only
      split <;> rfl
  | loop =>
      simp only
      split
      · rcases s.rq.qFeedup_cases with ⟨_, _, hcall⟩ | ⟨_, hcall⟩ <;> rw [hcall]
      · rfl
  | got pk =>
      simp only
      split <;> rfl
  | frame pk bufLen =>
      simp only
      split
      · rfl
      · split
        · exact qos_requeue _ _ _ _
        · exact qos_countBps _ _
  | resync pk newopt => rfl
  | report pk => exact absurd hpc (hnet pk)
  | done pk ok => rfl

/-- After the report was sent there is none. -/
theorem waiting_report {s : Speaker} {pk : ChunkRef} (hpc : s.net = .report pk)
    (i : NetIn) : (s.netStep i).cli.qos.frmSig = 0 := by
  unfold Speaker.netStep
  simp only [hpc]
  rw [qos_countBps]
  unfold Sclient.sendQos
  split
  · rfl
  · next h => exact not_not.mp h

theorem waiting_of_qos {cli cli' : Sclient} (h : cli'.qos = cli.qos) :
    cli'.waiting = cli.waiting := by
  unfold Sclient.waiting
  rw [h]

section Steps

variable {s : Speaker} {mail : List (Mail BufHdr)} {heard : List Content}

private theorem reportInv_net (h : ReportInv s mail heard) (i : NetIn) :
    ReportInv (s.netStep i) (mail ++ s.mail (.net i)) heard := by
  have hplay : (s.netStep i).play = s.play := (player_netStep s i).1
  by_cases hpc : ∃ pk, s.net = .report pk
  · obtain ⟨pk, hpc⟩ := hpc
    have hzero := waiting_report hpc i
    have hnone : (s.netStep i).cli.waiting = none := if_neg (not_not.mpr hzero)
    constructor
    · have hbox := h.box
      rw [hnone]
      simp only [Speaker.mail, hpc]
      cases hp : s.cli.waiting with
      | none =>
          rw [hp] at hbox
          simpa using hbox
      | some r =>
          rw [hp] at hbox
          exact hbox.take
    · intro hne
      exact absurd hzero hne
    · rw [hplay, puts_append]
      have hnoput : puts (s.mail (.net i)) = [] := by
        simp only [Speaker.mail, hpc]
        cases s.cli.waiting <;> rfl
      rw [hnoput, List.append_nil]
      exact h.named
  · have hqos := qos_netStep i fun pk hreport => hpc ⟨pk, hreport⟩
    have hmail : s.mail (.net i) = [] := by
      unfold Speaker.mail
      cases hnet : s.net with
      | report pk => exact absurd ⟨pk, hnet⟩ hpc
      | _ => rfl
    rw [hmail, List.append_nil]
    refine ⟨?_, ?_, ?_⟩
    · rw [waiting_of_qos hqos]
      exact h.box
    · rw [hqos]
      exact h.signed
    · rw [hplay]
      exact h.named

/-- The record of a chunk takes the place of the one that waits. -/
theorem waiting_updateFrame (cli : Sclient) (rq : Circle) (hdr : BufHdr) :
    (cli.updateFrame rq hdr).waiting =
      some (cli.updateFrame rq hdr).qos.unstamped :=
  if_pos (show syncData ≠ 0 by decide)

private theorem reportInv_play (h : ReportInv s mail heard) :
    ReportInv s.playStep (mail ++ s.mail .play) (heard ++ s.played .play) := by
  have hnamed := h.named
  -- the steps that neither play nor record
  have hcalm : ∀ {t : Speaker}, t.cli = s.cli → s.mail .play = [] →
      s.played .play = [] → t.play.unrecorded = s.play.unrecorded →
      ReportInv t (mail ++ s.mail .play) (heard ++ s.played .play) := by
    intro t hcli hmail hplayed hsame
    rw [hmail, hplayed, List.append_nil, List.append_nil]
    exact ⟨by rw [hcli]; exact h.box, by rw [hcli]; exact h.signed,
      by rw [hsame]; exact hnamed⟩
  unfold Speaker.playStep
  cases hpc : s.play with
  | loop =>
      simp only
      split
      · exact hcalm rfl (by rw [Speaker.mail, hpc]) (by rw [Speaker.played, hpc])
          (by rw [hpc]; rfl)
      · exact hcalm rfl (by rw [Speaker.mail, hpc]) (by rw [Speaker.played, hpc])
          (by rw [hpc]; rfl)
  | consume =>
      simp only
      rcases s.rq.qConsume_cases with ⟨_, _, _, hcall⟩ | ⟨_, hcall⟩
      · rw [hcall]
        exact hcalm rfl (by rw [Speaker.mail, hpc]) (by rw [Speaker.played, hpc])
          (by rw [hpc]; rfl)
      · rw [hcall]
        exact hcalm rfl (by rw [Speaker.mail, hpc]) (by rw [Speaker.played, hpc])
          (by rw [hpc]; rfl)
  | hold pk =>
      simp only [Speaker.mail, Speaker.played, hpc, List.append_nil]
      refine ⟨h.box, h.signed, ?_⟩
      rw [hpc] at hnamed
      rw [List.map_append, ← hnamed]
      simp [PlayPc.unrecorded, Chunk.content]
  | update hdr =>
      simp only [Speaker.mail, Speaker.played, hpc, List.append_nil]
      refine ⟨?_, fun _ => rfl, ?_⟩
      · rw [waiting_updateFrame]
        exact h.box.put _
      · rw [hpc] at hnamed
        rw [← hnamed]
        simp [PlayPc.unrecorded, Sclient.updateFrame, BufHdr.unstamped]
  | _ =>
      exact hcalm rfl (by rw [Speaker.mail, hpc]) (by rw [Speaker.played, hpc])
        (by rw [hpc]; rfl)

/-- Every step of either thread, whatever is received, is a step of the box. -/
theorem reportInv_step (h : ReportInv s mail heard) (op : SpkOp) :
    ReportInv (s.step op) (mail ++ s.mail op) (heard ++ s.played op) := by
  cases op with
  | net i =>
      rw [show s.played (.net i) = [] from rfl, List.append_nil]
      exact reportInv_net h i
  | play => exact reportInv_play h

end Steps

/-! ## What is sent -/

/-- A report is the letter that is taken, with the server's tick. -/
theorem reports_unstamped (s : Speaker) (op : SpkOp) :
    (s.reports op).map BufHdr.unstamped = takes (s.mail op) := by
  cases op with
  | play =>
      simp only [Speaker.reports, Speaker.mail]
      cases s.play <;> rfl
  | net i =>
      unfold Speaker.reports Speaker.mail Sclient.waiting
      cases s.net with
      | report pk =>
          simp only
          split <;> rfl
      | _ => rfl

/-- The bytes that go out are those of the report, as far as the socket takes
them. -/
theorem sendQos_bytes (s : Speaker) (i : NetIn) {pk : ChunkRef}
    (hpc : s.net = .report pk) :
    (s.cli.sendQos (s.rq.deref pk).hdr i.stream.sends).2 <+:
        (s.reports (.net i)).flatMap BufHdr.encode ∧
      ((∀ r ∈ s.reports (.net i), sendall r.encode i.stream.sends = []) →
        (s.cli.sendQos (s.rq.deref pk).hdr i.stream.sends).2 =
          (s.reports (.net i)).flatMap BufHdr.encode) := by
  unfold Speaker.reports Sclient.sendQos
  simp only [hpc]
  by_cases hne : s.cli.qos.frmSig ≠ 0
  · simp only [if_pos hne, List.flatMap_singleton]
    refine ⟨List.take_prefix _ _, fun hall => ?_⟩
    rw [hall _ (List.mem_singleton_self _), List.length_nil, Nat.sub_zero,
      List.take_length]
  · simp only [if_neg hne]
    exact ⟨List.nil_prefix, fun _ => rfl⟩

/-- What the server keeps of a report that arrives whole from the client with
index 0. -/
theorem rec_report (k : Clictx) (p : Pilot) (tick : BitVec 64) (r : BufHdr)
    {sock : List RecvOut} (hindex : k.index = 0) (hsig : r.frmSig = syncData)
    (hsock : r.encode <+: delivered sock) :
    (k.rec' p tick sock).2.1 =
      ⟨r.curSeq, tick - r.srvTick, (r.cliQoptim.toNat : Int) - r.cliQlen.toNat,
        r.cliQlen.toNat, r.cliQsize.toNat, r.cliQoptim.toNat⟩ := by
  obtain ⟨rest, hrest⟩ := hsock
  have hgot : (receiveall sizeofBufHdr sock).1 = r.encode := by
    rw [receiveall_bytes, ← hrest, BufHdr.take_encode]
  unfold Clictx.rec'
  simp only [hgot, BufHdr.length_encode, BufHdr.overlay_encode, hsig, hindex]
  rfl

/-- The invariant at the end of a run. -/
private theorem reportInv_run (n sz : Nat) (tick : BitVec 64) (time : Int)
    (ops : List SpkOp) :
    ReportInv (run Speaker.step (Speaker.init n sz tick time) ops)
      (trace Speaker.step Speaker.mail (Speaker.init n sz tick time) ops)
      (trace Speaker.step Speaker.played (Speaker.init n sz tick time) ops) :=
  trace_inv_nil (C := fun _ _ => True) (I := ReportInv)
    (fun _ op _ _ h _ => reportInv_step h op)
    (reportInv_init n sz tick time) (along_true _ _ _)

/-- A report has the signature that makes the server take it. -/
theorem signed_reports {s : Speaker} {mail : List (Mail BufHdr)}
    {heard : List Content} (h : ReportInv s mail heard) {op : SpkOp} {r : BufHdr}
    (hr : r ∈ s.reports op) : r.frmSig = syncData := by
  cases op with
  | play => cases hr
  | net i =>
      unfold Speaker.reports at hr
      cases hpc : s.net with
      | report pk =>
          rw [hpc] at hr
          by_cases hne : s.cli.qos.frmSig ≠ 0
          · simp only [if_pos hne, List.mem_singleton] at hr
            rw [hr]
            exact h.signed hne
          · simp only [if_neg hne] at hr
            cases hr
      | _ =>
          rw [hpc] at hr
          cases hr

/--
**Reports are news.**

Whatever the two threads do and whatever arrives: a record that is sent was left
by the player with no record sent or left since, so no report is out of date and
none is sent twice; the sequence numbers reported are some of those of the chunks
played, in order; and the server that gets a report whole from the client with
index 0 holds its values and no others as those of the pilot.
-/
theorem reports_are_news (n sz : Nat) (tick : BitVec 64) (time : Int)
    (ops : List SpkOp) :
    let s := Speaker.init n sz tick time
    let mail := trace Speaker.step Speaker.mail s ops
    let sent := trace Speaker.step Speaker.reports s ops
    sent.map BufHdr.unstamped = takes mail ∧
    (∀ before after r, mail = before ++ .take r :: after →
      ∃ before', before = before' ++ [.put r]) ∧
    (sent.map BufHdr.curSeq).Sublist
      ((trace Speaker.step Speaker.played s ops).map fun x => x.1.curSeq) ∧
    ∀ r ∈ sent, ∀ (k : Clictx) (p : Pilot) (now : BitVec 64) (sock : List RecvOut),
      k.index = 0 → r.encode <+: delivered sock →
      (k.rec' p now sock).2.1 =
        ⟨r.curSeq, now - r.srvTick, (r.cliQoptim.toNat : Int) - r.cliQlen.toNat,
          r.cliQlen.toNat, r.cliQsize.toNat, r.cliQoptim.toNat⟩ := by
  intro s mail sent
  have hinv := reportInv_run n sz tick time ops
  have hsame : sent.map BufHdr.unstamped = takes mail := by
    show (trace _ _ _ _).map _ = (trace _ _ _ _).filterMap _
    rw [map_trace, filterMap_trace]
    congr 1
    funext t op
    exact reports_unstamped t op
  refine ⟨hsame, fun _ _ _ => hinv.box.take_after_put, ?_, ?_⟩
  · have hseq : sent.map BufHdr.curSeq = (takes mail).map BufHdr.curSeq := by
      rw [← hsame, List.map_map]
      rfl
    have hput : (takes mail).Sublist (puts mail) :=
      (List.sublist_append_left _ _).trans hinv.box.takes_sublist
    rw [hseq, ← hinv.named]
    exact (hput.map BufHdr.curSeq).trans (List.sublist_append_left _ _)
  · intro r hr k p now sock hindex hsock
    obtain ⟨before, op, _, _, hmem⟩ := of_mem_trace ops _ hr
    have hsig := signed_reports (reportInv_run n sz tick time before) hmem
    exact rec_report k p now r hindex hsig hsock

end RoomSpeaker
