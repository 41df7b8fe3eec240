import RoomSpeaker.Verified.PilotIndex

/-!
# Who is told it is the pilot

The flag `is_pilot` that `qsend` sends a client is the one in the client's own
record `_req`.  `rec` rewrites it when the client reports; `_clean` changes the
indices and leaves the flags alone.

## Main results

* `tellsOnePilot_iff` — what the frames say depends on the flags of the clients
  that are still open.
* `tellsOnePilot_iff_flagsFit` — no `qsend` in a run can tell a client wrongly
  exactly when no record sets the flag of another client than the pilot and no
  cleanup leaves a flag with another client than the smallest address.
-/

namespace RoomSpeaker

open Foundation

/-! ## The law -/

/-- A frame of which something was sent and which names its receiver the
pilot. -/
def Frame.NamesPilot (f : Frame) : Prop := f.sent ≠ [] ∧ f.hdr.isPilot = true

instance (f : Frame) : Decidable f.NamesPilot :=
  inferInstanceAs (Decidable (_ ∧ _))

/-- Whatever `qsend` is called next, the client told that it is the pilot has
index 0, and it is only one. -/
structure TcpSrv.TellsOnePilot (s : TcpSrv) : Prop where
  pilot : ∀ n q, ∀ f ∈ (s.qsend n q).frames, f.NamesPilot → f.index = 0
  one : ∀ n q,
    (s.qsend n q).frames.countP (fun f => decide f.NamesPilot) ≤ 1

/-- The record a client has after it was read: the bytes received over the
previous record. -/
def PoolIn.record (i : PoolIn) (e : Ip × Clictx) : BufHdr :=
  e.2.req.overlay ((delivered (i.recv e.1)).take sizeofBufHdr)

/-- The flag a client that stays has after the reading loop. -/
def PoolIn.flagAfter (i : PoolIn) (e : Ip × Clictx) : Bool :=
  if e.1 ∈ i.ready then
    if (i.record e).frmSig = syncData then decide (e.2.index = 0)
    else (i.record e).isPilot
  else e.2.req.isPilot

/-- A `pool` that does not clean up receives, from clients other than the
pilot, only records that are reports or have the flag cleared.  A `pool` that
cleans up leaves the flag set for the smallest address alone. -/
def FlagsFit (s : TcpSrv) : SrvOp → Prop
  | .qsend _ => True
  | .pool i =>
      (i.selectErr = none → ¬s.Cleans i →
        ∀ e ∈ s.clis.entries, i.Stays e → e.1 ∈ i.ready → e.2.index ≠ 0 →
          (i.record e).frmSig = syncData ∨ (i.record e).isPilot = false) ∧
      (s.Cleans i → ∀ e ∈ s.clis.entries, i.Stays e → i.flagAfter e = true →
        (s.survivors i).min? = some e.1)

/-! ## Flags and frames -/

/-- The flags of the clients that are open. -/
def TcpSrv.FlagsRight (s : TcpSrv) : Prop :=
  ∀ e ∈ s.clis.entries, e.2.isopen = true → e.2.req.isPilot = true →
    e.2.index = 0

private theorem namesPilot_frameFor {p : Pilot} {q : QsendIn} {chunk : Chunk}
    {e : Ip × Clictx} (h : (frameFor p q chunk e).NamesPilot) :
    e.2.isopen = true ∧ e.2.req.isPilot = true := by
  constructor
  · by_contra hopen
    exact h.1 (frameFor_sent_closed p q chunk e (Bool.not_eq_true _ ▸ hopen))
  · exact h.2

private theorem probe_sent (p : Pilot) (hdr : BufHdr) (e : Ip × Clictx)
    (h : e.2.isopen = true) :
    (frameFor p .probe ⟨hdr, [0], false⟩ e).sent ≠ [] := by
  have hsend : ∀ buff : List Byte, buff.length = 49 →
      sendall buff [⟨49, 0⟩] = [] := by
    intro buff hlen
    have hdrop : buff.drop 49 = [] :=
      List.drop_eq_nil_of_le (Nat.le_of_eq hlen)
    cases buff with
    | nil => rfl
    | cons b bs =>
        show sendallLoop [] _ ((b :: bs).drop 49) = []
        rw [hdrop]
        rfl
  have hlen : (Chunk.buff ⟨e.2.address p 0 hdr, [0], false⟩).length = 49 := by
    simp [Chunk.buff, sizeofBufHdr]
  intro hnil
  have hlen' := congrArg List.length hnil
  simp only [frameFor, h, if_true, QsendIn.probe, List.length_nil] at hlen'
  rw [hsend _ hlen, List.length_take, hlen] at hlen'
  simp at hlen'

/-- What the frames say depends on the flags of the clients still open. -/
theorem tellsOnePilot_iff {s : TcpSrv} (hone : s.indices.count 0 ≤ 1) :
    s.TellsOnePilot ↔ s.FlagsRight := by
  constructor
  · intro h e he hopen hflag
    have hmem := List.mem_map_of_mem
      (f := frameFor (s.qsendHead QsendIn.probe.usecs).1.pilot .probe
        (s.stamped .probe)) he
    have hframes := qsend_frames s 0 .probe
    rw [if_neg (by decide)] at hframes
    rw [← hframes] at hmem
    exact h.pilot 0 .probe _ hmem ⟨probe_sent _ _ e hopen, hflag⟩
  · intro h
    constructor
    · intro n q f hf hnames
      rw [qsend_frames] at hf
      split at hf
      · cases hf
      · obtain ⟨e, he, rfl⟩ := List.mem_map.mp hf
        obtain ⟨hopen, hflag⟩ := namesPilot_frameFor hnames
        exact h e he hopen hflag
    · intro n q
      rw [qsend_frames]
      split
      · exact Nat.zero_le _
      · rw [List.countP_map]
        have hle : s.clis.entries.countP
            ((fun f => decide f.NamesPilot) ∘
              frameFor (s.qsendHead q.usecs).1.pilot q (s.stamped q)) ≤
            s.clis.entries.countP fun e => e.2.index == 0 := by
          apply List.countP_mono_left
          intro e he hnames
          obtain ⟨hopen, hflag⟩ := namesPilot_frameFor
            (of_decide_eq_true hnames)
          rw [beq_iff_eq]
          exact h e he hopen hflag
        have hcount : s.indices.count 0 =
            s.clis.entries.countP fun e => e.2.index == 0 := by
          unfold TcpSrv.indices TcpSrv.labels
          rw [List.map_map, List.count, List.countP_map]
          rfl
        rw [hcount] at hone
        exact Nat.le_trans hle hone

/-! ## One call -/

/-- The flag of a client that was read and is still open. -/
private theorem readOne_flag {i : PoolIn} {p : Pilot} {e : Ip × Clictx}
    (h : i.Stays e) :
    (readOne i i.ready p e).2.2.req.isPilot = i.flagAfter e := by
  unfold readOne PoolIn.flagAfter
  by_cases hready : e.1 ∈ i.ready
  · have hne := h.2.2 hready
    have hsock : e.2.sock (i.recv e.1) = i.recv e.1 := by
      simp [Clictx.sock, h.2.1]
    have hpos := List.length_pos_of_ne_nil hne
    have hrt : (receiveall sizeofBufHdr (i.recv e.1)).1.length ≠ 0 := by
      rw [length_receiveall]
      unfold sizeofBufHdr
      omega
    have hrec : i.record e =
        e.2.req.overlay (receiveall sizeofBufHdr (i.recv e.1)).1 := by
      rw [PoolIn.record, receiveall_bytes]
    simp only [if_pos hready, hsock, hrec]
    unfold Clictx.rec'
    simp only [if_neg hrt]
    split
    · rfl
    · rfl
  · simp only [if_neg hready]

theorem flagsRight_qsend {s : TcpSrv} (h : s.FlagsRight) (n : Nat)
    (q : QsendIn) : (s.qsend n q).srv.FlagsRight := by
  intro e' he' hopen hflag
  obtain ⟨e, he, _, hkept⟩ := exists_left_of_forall₂ (qsend_clients s n q) he'
  rw [hkept.index]
  apply h e he (hkept.isopen hopen)
  rw [← hkept.req]
  exact hflag

/-- The flags after the reading loop. -/
private theorem flagsRight_served {s : TcpSrv} (h : s.FlagsRight)
    (i : PoolIn) :
    (s.served i).FlagsRight ↔
      ∀ e ∈ s.clis.entries, i.Stays e → e.1 ∈ i.ready → e.2.index ≠ 0 →
        (i.record e).frmSig = syncData ∨ (i.record e).isPilot = false := by
  constructor
  · intro hright e he hstays hready hindex
    obtain ⟨q, hq⟩ := exists_served he hstays.1
    have hopen := (readOne_isopen i i.ready q e).mpr hstays.2
    by_contra hbad
    rw [not_or] at hbad
    have hflag : (readOne i i.ready q e).2.2.req.isPilot = true := by
      rw [readOne_flag hstays, PoolIn.flagAfter, if_pos hready, if_neg hbad.1]
      exact Bool.of_not_eq_false hbad.2
    have hzero := hright _ hq hopen hflag
    rw [readOne_index] at hzero
    exact hindex hzero
  · intro hrec e' he' hopen hflag
    rcases served_cases he' with ⟨_, hacc⟩ | ⟨e, he, hconn, q, rfl⟩
    · rw [hacc] at hflag
      cases hflag
    · have hstays : i.Stays e := ⟨hconn, (readOne_isopen i i.ready q e).mp hopen⟩
      rw [readOne_index]
      rw [readOne_flag hstays, PoolIn.flagAfter] at hflag
      by_cases hready : e.1 ∈ i.ready
      · by_contra hindex
        rw [if_pos hready] at hflag
        rcases hrec e he hstays hready hindex with hsync | hclear
        · rw [if_pos hsync] at hflag
          exact hindex (of_decide_eq_true hflag)
        · by_cases hsync : (i.record e).frmSig = syncData
          · rw [if_pos hsync] at hflag
            exact hindex (of_decide_eq_true hflag)
          · rw [if_neg hsync, hclear] at hflag
            cases hflag
      · rw [if_neg hready] at hflag
        exact h e he hstays.2.1 hflag

/-- The flags after a cleanup. -/
private theorem flagsRight_clean (s : TcpSrv) (i : PoolIn) :
    (s.served i).clean.FlagsRight ↔
      ∀ e ∈ s.clis.entries, i.Stays e → i.flagAfter e = true →
        (s.survivors i).min? = some e.1 := by
  have hmin := min_congr (mem_clean_keys s i)
  constructor
  · intro hright e he hstays hflag
    obtain ⟨q, hq⟩ := exists_served he hstays.1
    have hopen := (readOne_isopen i i.ready q e).mpr hstays.2
    have hkept : (readOne i i.ready q e).2 ∈
        (s.served i).clis.entries.filter fun e => e.2.isopen :=
      List.mem_filter.mpr ⟨hq, hopen⟩
    obtain ⟨k, hk⟩ := mem_numbered.1 _ hkept
    rw [← clean_entries] at hk
    have hzero := hright _ hk hopen ((readOne_flag hstays).trans hflag)
    have hlabel := label_clean (s.served i) _ (List.mem_map_of_mem hk)
    rw [← hmin, hlabel.mp hzero]
    exact congrArg some (readOne_key i i.ready q e)
  · intro hsmall e' he' hopen hflag
    have hlabel := label_clean (s.served i) _ (List.mem_map_of_mem he')
    rw [clean_entries] at he'
    obtain ⟨e₁, he₁, k, rfl⟩ := mem_numbered.2 e' he'
    obtain ⟨hmem, hopen₁⟩ := List.mem_filter.mp he₁
    rcases served_cases hmem with ⟨_, hacc⟩ | ⟨e, he, hconn, q, rfl⟩
    · replace hflag : e₁.2.req.isPilot = true := hflag
      rw [hacc] at hflag
      cases hflag
    · have hstays : i.Stays e :=
        ⟨hconn, (readOne_isopen i i.ready q e).mp hopen₁⟩
      have hafter := (readOne_flag (p := q) hstays).symm.trans hflag
      apply hlabel.mpr
      rw [hmin, hsmall e he hstays hafter]
      exact congrArg some (readOne_key i i.ready q e).symm

/-! ## Runs -/

private theorem flagsRight_step {s : TcpSrv} (h : s.FlagsRight) (op : SrvOp) :
    (s.step op).FlagsRight ↔ FlagsFit s op := by
  cases op with
  | qsend q => exact ⟨fun _ => trivial, fun _ => flagsRight_qsend h 0 q⟩
  | pool i =>
      show (s.pool i).1.FlagsRight ↔ _
      rcases pool_cases s i with
        ⟨herr, hpool⟩ | ⟨hclean, hpool⟩ | ⟨herr, hclean, hpool⟩
      · rw [hpool]
        exact ⟨fun _ => ⟨fun hnone => absurd hnone herr,
          fun hc => absurd hc.1 herr⟩, fun _ => h⟩
      · rw [hpool, flagsRight_clean]
        exact ⟨fun hsmall => ⟨fun _ hno => absurd hclean hno, fun _ => hsmall⟩,
          fun hfit => hfit.2 hclean⟩
      · rw [hpool, flagsRight_served h]
        exact ⟨fun hrec => ⟨fun _ _ => hrec, fun hc => absurd hc hclean⟩,
          fun hfit => hfit.1 herr hclean⟩

/-- No `qsend` in a run can tell a client wrongly exactly when no record sets
the flag of another client than the pilot and no cleanup leaves a flag with
another client than the smallest address. -/
theorem tellsOnePilot_iff_flagsFit (ops : List SrvOp) :
    Throughout TcpSrv.step TcpSrv.TellsOnePilot TcpSrv.init ops ↔
      Along TcpSrv.step FlagsFit TcpSrv.init ops := by
  apply throughout_iff_along
    (I := fun s => s.FlagsRight ∧ s.indices.count 0 ≤ 1)
  · intro s op hI hfit
    exact ⟨(flagsRight_step hI.1 op).mpr hfit, count_step hI.2 op⟩
  · intro s hI
    exact (tellsOnePilot_iff hI.2).mpr hI.1
  · intro s op hI htells
    exact (flagsRight_step hI.1 op).mp
      ((tellsOnePilot_iff (count_step hI.2 op)).mp htells)
  · constructor
    · intro e he
      cases he
    · exact Nat.zero_le _

/-- The pilot at address 10 reports and is told that it is the pilot.  Address 5
joins, 20 joins and leaves, and the cleanup makes 5 the pilot; the next `qsend`
still tells 10, which now has index 1. -/
theorem tellsOnePilot_fails_after_cleanup :
    ¬∀ ops, Throughout TcpSrv.step TcpSrv.TellsOnePilot TcpSrv.init ops := by
  intro h
  have hlast := (h [.pool (.accepting 10),
    .pool (.reporting 10 { BufHdr.zero with frmSig := syncData, curSeq := 1 }),
    .pool (.accepting 5), .pool (.accepting 20), .pool (.hangingUp 20),
    .pool .idle]).last.pilot 0 .probe
  exact absurd hlast (by decide +kernel)

end RoomSpeaker
