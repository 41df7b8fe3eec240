import RoomSpeaker.Verified.PilotIndex

/-!
# The server's view of the pilot

`rec` writes the pilot fields together, from one report of the client with
index 0.  `accept` and `_clean` reset all of them; the `_newclient` branch of
`qsend` resets two.  A record the connection cuts short is not told from a whole
one, unless nothing of it arrived.

## Main results

* `readLoop_pilot` — the reading loop leaves the pilot fields alone or takes
  them all from one report of a client with index 0.
* `oneReport_iff_resetsWhole` — the fields come from one report in every state
  of a run exactly when each `qsend` that takes the `_newclient` branch finds
  the fields it does not reset, or those it does, already zero.
* `rec_truncated_iff` — a truncated record is ignored exactly when nothing of
  it arrived.
-/

namespace RoomSpeaker

open Foundation

/-! ## Runs with the latest reports -/

/-- The five fields that `qsend` and the server loop read together. -/
def Pilot.view (p : Pilot) : BitVec 32 × BitVec 64 × Int × Int × Int :=
  (p.seq, p.ping, p.qlen, p.qsz, p.qoptim)

/-- The server, with the latest `SYNC_DATA` report of each client since it was
accepted. -/
structure ReportRun where
  srv : TcpSrv
  latest : Ip → Option BufHdr

/-- A report as the server keeps it: the round trip is filled in. -/
def received (h : BufHdr) (tick : BitVec 64) : BufHdr :=
  { h with cliPing := tick - h.srvTick }

/-- The `SYNC_DATA` report a `pool` call receives from a client. -/
def TcpSrv.reportFrom (s : TcpSrv) (i : PoolIn) (ip : Ip) : Option BufHdr :=
  let h := BufHdr.decode ((delivered (i.recv ip)).take sizeofBufHdr)
  if (∃ e ∈ s.clis.entries, e.1 = ip ∧ e.2.isopen = true) ∧ ip ∈ i.ready ∧
      delivered (i.recv ip) ≠ [] ∧ h.frmSig = syncData then
    some (received h (i.tick ip))
  else none

def latestAfter (r : ReportRun) : SrvOp → Ip → Option BufHdr
  | .qsend _, ip => r.latest ip
  | .pool i, ip =>
      if i.selectErr ≠ none then r.latest ip
      else if i.conn = some ip then none
      else (r.srv.reportFrom i ip).or (r.latest ip)

def ReportRun.step (r : ReportRun) (op : SrvOp) : ReportRun :=
  ⟨r.srv.step op, latestAfter r op⟩

def ReportRun.init : ReportRun := ⟨TcpSrv.init, fun _ => none⟩

/-- Reports arrive complete: a client that is read delivers nothing, or at
least one whole record. -/
def Complete (r : ReportRun) : SrvOp → Prop
  | .qsend _ => True
  | .pool i => ∀ e ∈ r.srv.clis.entries, e.2.isopen = true → e.1 ∈ i.ready →
      delivered (i.recv e.1) = [] ∨
        sizeofBufHdr ≤ (delivered (i.recv e.1)).length

/-- The fields are all zero, or all from the latest report of the client that
has index 0. -/
def OneReport (r : ReportRun) : Prop :=
  r.srv.pilot.view = Pilot.zero.view ∨
  ∃ e ∈ r.srv.clis.entries, e.2.index = 0 ∧
    (r.latest e.1).map (fun h => (Pilot.ofReport h).view) =
      some r.srv.pilot.view

instance (r : ReportRun) : Decidable (OneReport r) :=
  inferInstanceAs (Decidable (_ ∨ _))

/-- A `qsend` that takes the `_newclient` branch finds the fields it does not
reset zero already, or those it does. -/
def ResetsWhole (r : ReportRun) : SrvOp → Prop
  | .qsend _ => r.srv.newclient = true →
      (r.srv.pilot.qlen = 0 ∧ r.srv.pilot.qsz = 0 ∧ r.srv.pilot.qoptim = 0) ∨
      (r.srv.pilot.seq = 0 ∧ r.srv.pilot.ping = 0)
  | .pool _ => True

instance (r : ReportRun) : ∀ op, Decidable (ResetsWhole r op)
  | .qsend _ => inferInstanceAs (Decidable (_ → _))
  | .pool _ => isTrue trivial

/-! ## The reading loop -/

/-- The report by which one turn of the reading loop sets the pilot fields. -/
def pilotReport (i : PoolIn) (rd : List Ip) (e : Ip × Clictx) :
    Option BufHdr :=
  let rt := (receiveall sizeofBufHdr (e.2.sock (i.recv e.1))).1
  let req := e.2.req.overlay rt
  if e.1 ∈ rd ∧ rt.length ≠ 0 ∧ req.frmSig = syncData ∧ e.2.index = 0 then
    some (received req (i.tick e.1))
  else none

theorem readOne_pilot (i : PoolIn) (rd : List Ip) (p : Pilot)
    (e : Ip × Clictx) :
    (readOne i rd p e).1 =
      match pilotReport i rd e with
      | some h => Pilot.ofReport h
      | none => p := by
  unfold readOne pilotReport
  by_cases hrd : e.1 ∈ rd
  · simp only [hrd, true_and]
    unfold Clictx.rec'
    by_cases hrt : (receiveall sizeofBufHdr (e.2.sock (i.recv e.1))).1.length = 0
    · simp [hrt]
    · by_cases hsig : (e.2.req.overlay (receiveall sizeofBufHdr
          (e.2.sock (i.recv e.1))).1).frmSig = syncData
      · by_cases hindex : e.2.index = 0
        · simp [hrt, hsig, hindex, received]
        · simp [hrt, hsig, hindex]
      · simp [hrt, hsig]
  · simp [hrd]

/-- The reading loop leaves the pilot fields alone or takes them all from one
report of a client with index 0. -/
theorem readLoop_pilot (i : PoolIn) (rd : List Ip) (es : List (Ip × Clictx)) :
    ∀ p, (∃ e ∈ es, ∃ h, pilotReport i rd e = some h ∧
        (readLoop i rd p es).1 = Pilot.ofReport h) ∨
      ((∀ e ∈ es, pilotReport i rd e = none) ∧ (readLoop i rd p es).1 = p) := by
  induction es with
  | nil =>
      intro p
      apply Or.inr
      constructor
      · intro e he
        cases he
      · rfl
  | cons e es ih =>
      intro p
      have hone := readOne_pilot i rd p e
      rcases ih (readOne i rd p e).1 with ⟨e', he', h, hrep, heq⟩ | ⟨hnone, heq⟩
      · exact Or.inl ⟨e', List.mem_cons_of_mem _ he', h, hrep, heq⟩
      · cases hrep : pilotReport i rd e with
        | some h =>
            rw [hrep] at hone
            exact Or.inl ⟨e, List.mem_cons_self, h, hrep, heq.trans hone⟩
        | none =>
            rw [hrep] at hone
            apply Or.inr
            constructor
            · intro e' he'
              rcases List.mem_cons.mp he' with rfl | he'
              · exact hrep
              · exact hnone e' he'
            · exact heq.trans hone

/-- The report that sets the pilot fields is the report received from that
client. -/
private theorem reportFrom_of_pilotReport {r : ReportRun} {i : PoolIn}
    (hcomplete : Complete r (.pool i)) {e : Ip × Clictx}
    (he : e ∈ r.srv.clis.entries) (hindex : e.2.index = 0)
    (hconn : i.conn ≠ some e.1) :
    pilotReport i i.readSet e = r.srv.reportFrom i e.1 := by
  have hrd : e.1 ∈ i.readSet ↔ e.1 ∈ i.ready := by
    simp [PoolIn.readSet, hconn]
  have hopen : (∃ d ∈ r.srv.clis.entries, d.1 = e.1 ∧ d.2.isopen = true) ↔
      e.2.isopen = true := by
    constructor
    · rintro ⟨⟨a, k⟩, hd, rfl, hdo⟩
      rw [r.srv.clis.eq_of_mem he hd]
      exact hdo
    · intro ho
      exact ⟨e, he, rfl, ho⟩
  unfold pilotReport TcpSrv.reportFrom
  simp only [hrd, hopen]
  by_cases ho : e.2.isopen = true
  · by_cases hready : e.1 ∈ i.ready
    · have hsock : e.2.sock (i.recv e.1) = i.recv e.1 := by
        simp [Clictx.sock, ho]
      rw [hsock, receiveall_bytes]
      rcases hcomplete e he ho hready with hnil | hfull
      · simp [hnil]
      · have hlen : ((delivered (i.recv e.1)).take sizeofBufHdr).length =
            sizeofBufHdr := by
          rw [List.length_take]
          omega
        have hne : delivered (i.recv e.1) ≠ [] := by
          intro hnil
          rw [hnil] at hfull
          exact absurd hfull (by decide)
        have hpos : ((delivered (i.recv e.1)).take sizeofBufHdr).length ≠ 0 := by
          rw [hlen]
          decide
        rw [BufHdr.overlay_full _ _ hlen]
        simp only [ho, hready, hne, hpos, hindex, ne_eq, not_false_eq_true,
          true_and, and_true]
    · simp [hready]
  · have hnone : (receiveall sizeofBufHdr (e.2.sock (i.recv e.1))).1 = [] := by
      apply receiveall_eq_nil
      simp [Clictx.sock, ho]
    simp [hnone, ho]

/-! ## One call -/

theorem mem_labels {s : TcpSrv} {a : Ip} {n : Nat} :
    (a, n) ∈ s.labels ↔ ∃ e ∈ s.clis.entries, e.1 = a ∧ e.2.index = n := by
  simp [TcpSrv.labels]

/-- The law sees of the clients only their labels. -/
theorem oneReport_iff (r : ReportRun) :
    OneReport r ↔ r.srv.pilot.view = Pilot.zero.view ∨
      ∃ a, (a, 0) ∈ r.srv.labels ∧
        (r.latest a).map (fun h => (Pilot.ofReport h).view) =
          some r.srv.pilot.view := by
  constructor
  · rintro (hzero | ⟨e, he, hindex, hview⟩)
    · exact Or.inl hzero
    · exact Or.inr ⟨e.1, mem_labels.mpr ⟨e, he, rfl, hindex⟩, hview⟩
  · rintro (hzero | ⟨a, ha, hview⟩)
    · exact Or.inl hzero
    · obtain ⟨e, he, rfl, hindex⟩ := mem_labels.mp ha
      exact Or.inr ⟨e, he, hindex, hview⟩

private theorem oneReport_served {r : ReportRun} (h : OneReport r) {i : PoolIn}
    (herr : i.selectErr = none) (hcomplete : Complete r (.pool i)) :
    OneReport ⟨r.srv.served i, latestAfter r (.pool i)⟩ := by
  have hlabels := labels_served r.srv i
  have hloop := readLoop_pilot i i.readSet
    (r.srv.markDirty.acceptIf i.conn).clis.entries
    (r.srv.markDirty.acceptIf i.conn).pilot
  have hpilot : (r.srv.served i).pilot =
      (readLoop i i.readSet (r.srv.markDirty.acceptIf i.conn).pilot
        (r.srv.markDirty.acceptIf i.conn).clis.entries).1 := rfl
  have hlatest : ∀ a, i.conn ≠ some a →
      latestAfter r (.pool i) a = (r.srv.reportFrom i a).or (r.latest a) := by
    intro a ha
    simp [latestAfter, herr, ha]
  -- the law is witnessed by one client
  have hclient : ∀ e ∈ (r.srv.markDirty.acceptIf i.conn).clis.entries,
      e.2.index = 0 →
      (latestAfter r (.pool i) e.1).map (fun h => (Pilot.ofReport h).view) =
        some (r.srv.served i).pilot.view →
      OneReport ⟨r.srv.served i, latestAfter r (.pool i)⟩ := by
    intro e he hindex hview
    rw [oneReport_iff]
    refine Or.inr ⟨e.1, ?_, hview⟩
    rw [hlabels]
    exact mem_labels.mpr ⟨e, he, rfl, hindex⟩
  rw [← hpilot] at hloop
  rcases hloop with ⟨e, he, rep, hrep, heq⟩ | ⟨hnone, heq⟩
  · -- a report of a client with index 0 was read in this call
    rcases (mem_acceptIf r.srv.markDirty i.conn e).mp he with
      ⟨hconn, _⟩ | ⟨hconn, hmem⟩
    · simp [pilotReport, PoolIn.readSet, hconn] at hrep
    · have hindex : e.2.index = 0 := by
        by_contra hne
        simp [pilotReport, hne] at hrep
      rw [reportFrom_of_pilotReport hcomplete hmem hindex hconn] at hrep
      apply hclient e he hindex
      rw [hlatest e.1 hconn, hrep, heq]
      rfl
  · cases hconn : i.conn with
    | some ip =>
        rw [hconn] at heq
        exact Or.inl (congrArg Pilot.view heq)
    | none =>
        rw [hconn] at heq hnone hclient
        replace heq : (r.srv.served i).pilot = r.srv.pilot := heq
        rcases h with hzero | ⟨e, he, hindex, hview⟩
        · exact Or.inl ((congrArg Pilot.view heq).trans hzero)
        · have hno : r.srv.reportFrom i e.1 = none := by
            rw [← reportFrom_of_pilotReport hcomplete he hindex
              (by rw [hconn]; simp)]
            exact hnone e he
          apply hclient e he hindex
          rw [hlatest e.1 (by rw [hconn]; simp), hno, heq]
          exact hview

private theorem oneReport_qsend {r : ReportRun} (h : OneReport r) (q : QsendIn)
    (hreset : ResetsWhole r (.qsend q)) : OneReport (r.step (.qsend q)) := by
  have hpilot := qsend_pilot r.srv 0 q
  have hlabels := labels_qsend r.srv 0 q
  have hsame : (r.srv.qsend 0 q).srv.pilot.view = r.srv.pilot.view →
      OneReport (r.step (.qsend q)) := by
    intro hview
    rw [oneReport_iff] at h ⊢
    show (r.srv.qsend 0 q).srv.pilot.view = _ ∨
      ∃ a, (a, 0) ∈ (r.srv.qsend 0 q).srv.labels ∧
        _ = some (r.srv.qsend 0 q).srv.pilot.view
    rw [hview, hlabels]
    exact h
  by_cases hnew : r.srv.newclient = true
  · rw [if_pos hnew] at hpilot
    rcases hreset hnew with ⟨hlen, hsz, hopt⟩ | ⟨hseq, hping⟩
    · apply Or.inl
      show (r.srv.qsend 0 q).srv.pilot.view = _
      rw [hpilot]
      simp [Pilot.view, Pilot.zero, hlen, hsz, hopt]
    · apply hsame
      rw [hpilot]
      simp [Pilot.view, hseq, hping]
  · rw [if_neg hnew] at hpilot
    exact hsame (congrArg Pilot.view hpilot)

/-- With one client at index 0, the fields of a report that `qsend` cut in two
are not those of its latest report. -/
private theorem resetsWhole_of_oneReport {r : ReportRun} (h : OneReport r)
    (hone : r.srv.indices.count 0 ≤ 1) (q : QsendIn)
    (hafter : OneReport (r.step (.qsend q))) : ResetsWhole r (.qsend q) := by
  intro hnew
  have hpilot := qsend_pilot r.srv 0 q
  rw [if_pos hnew] at hpilot
  rw [oneReport_iff] at h hafter
  replace hafter : (r.srv.qsend 0 q).srv.pilot.view = Pilot.zero.view ∨
    ∃ a, (a, 0) ∈ (r.srv.qsend 0 q).srv.labels ∧
      (r.latest a).map (fun h => (Pilot.ofReport h).view) =
        some (r.srv.qsend 0 q).srv.pilot.view := hafter
  rw [labels_qsend, hpilot] at hafter
  rcases hafter with hzero | ⟨a, ha, hview⟩
  · simp only [Pilot.view, Pilot.zero, Prod.mk.injEq, true_and] at hzero
    exact Or.inl hzero
  · rcases h with hzero | ⟨b, hb, hviewb⟩
    · simp only [Pilot.view, Pilot.zero, Prod.mk.injEq] at hzero
      exact Or.inr ⟨hzero.1, hzero.2.1⟩
    · have hab := eq_of_pilots hone ha hb
      rw [hab, hviewb] at hview
      simp only [Pilot.view, Option.some.injEq, Prod.mk.injEq, and_true] at hview
      exact Or.inr hview

/-! ## Runs -/

private theorem oneReport_step {r : ReportRun} (h : OneReport r) (op : SrvOp)
    (hcomplete : Complete r op) (hreset : ResetsWhole r op) :
    OneReport (r.step op) := by
  cases op with
  | qsend q => exact oneReport_qsend h q hreset
  | pool i =>
      rcases pool_cases r.srv i with
        ⟨herr, hpool⟩ | ⟨_, hpool⟩ | ⟨herr, _, hpool⟩
      · have hstep : r.step (.pool i) = ⟨r.srv.markDirty, r.latest⟩ := by
          have hlatest : latestAfter r (.pool i) = r.latest := by
            funext a
            simp [latestAfter, herr]
          rw [ReportRun.step, TcpSrv.step, hpool, hlatest]
        rw [hstep]
        exact h
      · apply Or.inl
        show (r.srv.pool i).1.pilot.view = _
        rw [hpool]
        rfl
      · have hstep : r.step (.pool i) =
            ⟨r.srv.served i, latestAfter r (.pool i)⟩ := by
          rw [ReportRun.step, TcpSrv.step, hpool]
        rw [hstep]
        exact oneReport_served h herr hcomplete

/-- When reports arrive complete, the pilot fields come from one report in every
state of a run exactly when each `qsend` that takes the `_newclient` branch
finds the fields it does not reset, or those it does, already zero. -/
theorem oneReport_iff_resetsWhole (ops : List SrvOp)
    (h : Along ReportRun.step Complete ReportRun.init ops) :
    Throughout ReportRun.step OneReport ReportRun.init ops ↔
      Along ReportRun.step ResetsWhole ReportRun.init ops := by
  apply throughout_iff_along_under
    (I := fun r => OneReport r ∧ r.srv.indices.count 0 ≤ 1) _ _ _ ops _ _ h
  · intro r op hI hcomplete hreset
    exact ⟨oneReport_step hI.1 op hcomplete hreset, count_step hI.2 op⟩
  · intro r hI
    exact hI.1
  · intro r op hI _ hafter
    cases op with
    | qsend q => exact resetsWhole_of_oneReport hI.1 hI.2 q hafter
    | pool i => trivial
  · exact ⟨Or.inl rfl, Nat.zero_le _⟩

private theorem complete_unread {r : ReportRun} {i : PoolIn}
    (h : i.ready = []) : Complete r (.pool i) := by
  intro e _ _ hready
  rw [h] at hready
  cases hready

private theorem complete_encode {r : ReportRun} {i : PoolIn} {req : BufHdr}
    (h : i.recv = fun _ => [.data req.encode]) : Complete r (.pool i) := by
  intro e _ _ _
  rw [h, delivered_data req.encode_ne_nil]
  apply Or.inr
  simp

/-- A report of the pilot: it played chunk 7 and has 3 chunks queued. -/
def pilotsReport : BufHdr :=
  { BufHdr.zero with
    frmSig := syncData, curSeq := 7, cliQlen := 3, cliQsize := 10
    cliQoptim := 5 }

/-- The pilot's report arrives after the `qsend` that follows its accept. -/
theorem oneReport_after_quiet_accept :
    Throughout ReportRun.step OneReport ReportRun.init
      [.pool (.accepting 5), .qsend .probe, .pool (.reporting 5 pilotsReport),
        .qsend .probe] := by
  refine (oneReport_iff_resetsWhole _ ?_).mpr (by decide +kernel)
  exact ⟨complete_unread rfl, trivial, complete_encode rfl, trivial, trivial⟩

/-- One `pool` accepts a second client and reads the pilot's report.  The next
`qsend` sets two of the five fields to zero. -/
theorem oneReport_fails_after_busy_accept :
    ¬∀ ops, Along ReportRun.step Complete ReportRun.init ops →
      Throughout ReportRun.step OneReport ReportRun.init ops := by
  intro h
  have hlast := (h [.pool (.accepting 5), .qsend .probe,
    .pool { PoolIn.reporting 5 pilotsReport with conn := some 10 },
    .qsend .probe]
    ⟨complete_unread rfl, trivial, complete_encode rfl, trivial, trivial⟩).last
  exact absurd hlast (by decide +kernel)

/-! ## Truncated reports -/

/-- A report that `rec` does not act on: the pilot fields and the two fields
`rec` fills in stay, and the client is closed. -/
structure Clictx.Ignored (k : Clictx) (p : Pilot)
    (r : Clictx × Pilot × Int) : Prop where
  pilot : r.2.1 = p
  isPilot : r.1.req.isPilot = k.req.isPilot
  cliPing : r.1.req.cliPing = k.req.cliPing
  closed : r.1.isopen = false

/-- When no byte arrives, `rec` closes the client and does nothing else. -/
theorem Clictx.rec_nothing (k : Clictx) (p : Pilot) (tick : BitVec 64)
    {sock : List RecvOut} (h : delivered sock = []) :
    k.rec' p tick sock = ({ k.destroy with dirty := true }, p, 0) := by
  have hrt := receiveall_eq_nil sizeofBufHdr sock h
  simp [Clictx.rec', hrt]

/-- A record that ends before its last byte is ignored exactly when it did not
begin.  From the first byte on, `rec` works on the mixture of the record with
the one before. -/
theorem rec_truncated_iff (k : Clictx) (p : Pilot) (tick : BitVec 64)
    (recv : List RecvOut) :
    ((receiveall sizeofBufHdr (k.sock recv)).1.length < sizeofBufHdr →
      k.Ignored p (k.rec' p tick (k.sock recv))) ↔
    delivered (k.sock recv) = [] ∨
      sizeofBufHdr ≤ (delivered (k.sock recv)).length := by
  have hlen := length_receiveall sizeofBufHdr (k.sock recv)
  constructor
  · intro himp
    rcases Nat.lt_or_ge (delivered (k.sock recv)).length sizeofBufHdr with
      hshort | hfull
    · have hign := himp (by omega)
      apply Or.inl
      by_contra hne
      cases hopen : k.isopen with
      | false =>
          rw [Clictx.sock, hopen] at hne
          exact hne rfl
      | true =>
          -- a client that delivered a byte stays open
          have hsock : k.sock recv = recv := by simp [Clictx.sock, hopen]
          have hstays := (k.rec_isopen p tick recv).mpr
            ⟨hopen, by rwa [hsock] at hne⟩
          rw [hign.closed] at hstays
          cases hstays
    · exact Or.inr hfull
  · rintro (hnone | hfull) hshort
    · rw [k.rec_nothing p tick hnone]
      exact ⟨rfl, rfl, rfl, rfl⟩
    · omega

/-- A client at index 0 whose last report was a `SYNC_DATA` one. -/
def reportedBefore : Clictx := ⟨pilotsReport, 0, true, false⟩

/-- One byte of a record arrives and the connection ends.  The signature was
left from the record before, so the old report becomes the pilot's new one. -/
theorem rec_acts_on_one_byte :
    ¬∀ (k : Clictx) (p : Pilot) (tick : BitVec 64) (recv : List RecvOut),
      (receiveall sizeofBufHdr (k.sock recv)).1.length < sizeofBufHdr →
      k.Ignored p (k.rec' p tick (k.sock recv)) := by
  intro h
  have hpilot := (h reportedBefore Pilot.zero 0 [.data [1]] (by decide)).pilot
  exact absurd hpilot (by decide +kernel)

end RoomSpeaker
