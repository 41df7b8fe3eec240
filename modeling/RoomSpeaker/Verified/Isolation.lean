import RoomSpeaker.Verified.PilotIndex

/-!
# One client's frame does not depend on another client

`qsend` fills in one header for all clients, over and over, and sends it to one
client after the other.  Every field is either the same for all clients of the
call or written anew for each of them, so nothing of one client is left in the
frame of the next.

Of the frame of a client only `srv_tick`, the clock when it is filled in, comes
from elsewhere.

## Main results

* `qsend_isolates` — each client is sent the common fields and its own, is
  closed by its own `sendall` alone, and two calls that differ in the other
  clients send it the same.
-/

namespace RoomSpeaker

open Foundation

/-! ## The parts of a frame -/

/-- The header fields that all clients of a call get alike. -/
def BufHdr.shared (h : BufHdr) :
    BitVec 32 × BitVec 64 × BitVec 16 × BitVec 8 :=
  (h.pilotSeq, h.pilotPing, h.pilotQPerc, h.frmSig)

/-- The header fields that repeat a client's report. -/
def BufHdr.own (h : BufHdr) :
    BitVec 16 × BitVec 16 × BitVec 16 × BitVec 64 × Bool :=
  (h.cliQlen, h.cliQsize, h.cliQoptim, h.cliPing, h.isPilot)

/-- The frame that a call sends to a client, with `buf_len` not zero. -/
def TcpSrv.frame (s : TcpSrv) (q : QsendIn) (e : Ip × Clictx) : Frame :=
  frameFor (s.qsendHead q.usecs).1.pilot q (s.stamped q) e

/-- The result of `sendall` for a client: the number of bytes not sent. -/
def TcpSrv.unsent (s : TcpSrv) (q : QsendIn) (e : Ip × Clictx) : Nat :=
  (sendall ((s.frame q e).hdr.encode ++ (s.frame q e).payload)
    (if e.2.isopen then q.sends e.1 else [])).length

/-- Two frames that agree but for `srv_tick`: the same header and payload, and
as many bytes of them sent. -/
structure Frame.Alike (f g : Frame) : Prop where
  ip : f.ip = g.ip
  hdr : { f.hdr with srvTick := g.hdr.srvTick } = g.hdr
  payload : f.payload = g.payload
  count : f.sent.length = g.sent.length
  sent : f.hdr.srvTick = g.hdr.srvTick → f.sent = g.sent

/-- Two calls that agree in everything the clients share. -/
structure TcpSrv.SameCall (s : TcpSrv) (q : QsendIn) (t : TcpSrv)
    (r : QsendIn) : Prop where
  newclient : s.newclient = t.newclient
  lastQos : s.lastQos = t.lastQos
  pilot : s.pilot = t.pilot
  chunk : q.chunk = r.chunk
  usecs : q.usecs = r.usecs

/-- Two calls that agree in one client: its last report, its socket and what
becomes of its `send` calls. -/
structure SameClient (q r : QsendIn) (d e : Ip × Clictx) : Prop where
  ip : d.1 = e.1
  req : d.2.req = e.2.req
  isopen : d.2.isopen = e.2.isopen
  sends : q.sends d.1 = r.sends e.1

/-! ## One call -/

theorem frame_hdr (s : TcpSrv) (q : QsendIn) (e : Ip × Clictx) :
    (s.frame q e).hdr =
      e.2.address (s.qsendHead q.usecs).1.pilot (q.tick e.1)
        (s.stamped q).hdr := rfl

theorem frame_sent (s : TcpSrv) (q : QsendIn) (e : Ip × Clictx) :
    (s.frame q e).sent =
      ((s.frame q e).hdr.encode ++ (s.frame q e).payload).take
        (((s.frame q e).hdr.encode ++ (s.frame q e).payload).length -
          s.unsent q e) := rfl

theorem frame_size (s : TcpSrv) (q : QsendIn) (e : Ip × Clictx) :
    ((s.frame q e).hdr.encode ++ (s.frame q e).payload).length =
      q.chunk.size := by
  rw [List.length_append, BufHdr.length_encode]
  rfl

/-- A client is closed exactly when its `sendall` did not return zero. -/
theorem closed_iff_unsent (s : TcpSrv) (q : QsendIn) (e : Ip × Clictx) :
    (sentClient (s.qsendHead q.usecs).1.pilot q (s.stamped q) e).2.isopen =
      false ↔ s.unsent q e ≠ 0 := by
  have hunsent : s.unsent q e =
      (leftFor (s.qsendHead q.usecs).1.pilot q (s.stamped q) e).length := rfl
  rw [hunsent, ← Bool.not_eq_true, sentClient_isopen, ne_eq,
    List.length_eq_zero_iff]
  constructor
  · intro h hleft
    apply h
    refine ⟨?_, hleft⟩
    by_contra hclosed
    -- a destroyed socket sends nothing
    have hnone : (leftFor (s.qsendHead q.usecs).1.pilot q (s.stamped q)
        e).length = q.chunk.size := by
      rw [leftFor, if_neg hclosed, sendall_nil, ← frame_size s q e]
      rfl
    rw [hleft, List.length_nil, Chunk.size] at hnone
    have hsize : sizeofBufHdr = 48 := rfl
    omega
  · intro h hopen
    exact h hopen.2

/-! ## Two calls -/

theorem qsendHead_congr {s t : TcpSrv} {q r : QsendIn} (h : s.SameCall q t r) :
    (s.qsendHead q.usecs).1.pilot = (t.qsendHead r.usecs).1.pilot ∧
      (s.qsendHead q.usecs).2 = (t.qsendHead r.usecs).2 := by
  unfold TcpSrv.qsendHead
  rw [h.newclient, h.lastQos, h.usecs]
  by_cases hnew : t.newclient = true
  · simp [hnew, h.pilot]
  · by_cases hqos : (r.usecs - t.lastQos).toNat > qosTo
    · simp only [if_neg hnew, if_pos hqos, h.pilot, and_self]
    · simp only [if_neg hnew, if_neg hqos, h.pilot, and_self]

theorem stamped_congr {s t : TcpSrv} {q r : QsendIn} (h : s.SameCall q t r) :
    s.stamped q = t.stamped r := by
  unfold TcpSrv.stamped
  rw [(qsendHead_congr h).1, (qsendHead_congr h).2, h.chunk]

/-- The result of `sendall` is the same in both calls. -/
theorem unsent_congr {s t : TcpSrv} {q r : QsendIn} {d e : Ip × Clictx}
    (h : s.SameCall q t r) (hcli : SameClient q r d e) :
    s.unsent q d = t.unsent r e := by
  unfold TcpSrv.unsent
  rw [hcli.isopen, hcli.sends]
  apply length_sendall_congr
  rw [frame_size, frame_size, h.chunk]

/-- A client is sent the same frame in both calls. -/
theorem frame_congr {s t : TcpSrv} {q r : QsendIn} {d e : Ip × Clictx}
    (h : s.SameCall q t r) (hcli : SameClient q r d e) :
    (s.frame q d).Alike (t.frame r e) := by
  have hhdr : { (s.frame q d).hdr with
      srvTick := (t.frame r e).hdr.srvTick } = (t.frame r e).hdr := by
    rw [frame_hdr, frame_hdr, stamped_congr h, (qsendHead_congr h).1]
    simp only [Clictx.address, hcli.req]
  have hpayload : (s.frame q d).payload = (t.frame r e).payload := by
    show q.chunk.payload = r.chunk.payload
    rw [h.chunk]
  constructor
  · exact hcli.ip
  · exact hhdr
  · exact hpayload
  · rw [frame_sent, frame_sent, List.length_take, List.length_take,
      frame_size, frame_size, unsent_congr h hcli, h.chunk]
  · intro htick
    have hsame : (s.frame q d).hdr = (t.frame r e).hdr := by
      rw [← hhdr, ← htick]
    rw [frame_sent, frame_sent, unsent_congr h hcli, hsame, hpayload]

/-! ## All clients -/

/-- A call treats its clients one by one: what it sends to a client and whether
it closes the client is settled by the client and by what is common to all. -/
structure TcpSrv.Isolates (s : TcpSrv) (n : Nat) (q : QsendIn) : Prop where
  frames : (s.qsend n q).frames = s.clis.entries.map (s.frame q)
  own : ∀ e ∈ s.clis.entries, (s.frame q e).ip = e.1 ∧
    (s.frame q e).hdr.own = e.2.req.own ∧
    (s.frame q e).payload = q.chunk.payload
  shared : ∀ f ∈ (s.qsend n q).frames, ∀ g ∈ (s.qsend n q).frames,
    f.hdr.shared = g.hdr.shared
  whole : ∀ e ∈ s.clis.entries, s.unsent q e = 0 →
    (s.frame q e).sent = (s.frame q e).hdr.encode ++ q.chunk.payload ∧
    (s.frame q e).sent.length = q.chunk.size
  closed : List.Forall₂
    (fun e e' => e'.1 = e.1 ∧ e'.2.req = e.2.req ∧
      (e'.2.isopen = false ↔ s.unsent q e ≠ 0))
    s.clis.entries (s.qsend n q).srv.clis.entries
  alone : ∀ t r, s.SameCall q t r → ∀ d ∈ s.clis.entries,
    ∀ e ∈ t.clis.entries, SameClient q r d e →
    (s.frame q d).Alike (t.frame r e) ∧ s.unsent q d = t.unsent r e

/-- `qsend` of a chunk that is not empty isolates the clients from each
other. -/
theorem qsend_isolates (s : TcpSrv) (n : Nat) (q : QsendIn)
    (hne : q.chunk.hdr.bufLen ≠ 0) : s.Isolates n q := by
  have hframes : (s.qsend n q).frames = s.clis.entries.map (s.frame q) := by
    rw [qsend_frames, if_neg hne]
    rfl
  constructor
  · exact hframes
  · intro e _
    exact ⟨rfl, rfl, rfl⟩
  · intro f hf g hg
    rw [hframes] at hf hg
    obtain ⟨d, _, rfl⟩ := List.mem_map.mp hf
    obtain ⟨e, _, rfl⟩ := List.mem_map.mp hg
    rfl
  · intro e _ hsent
    have hwhole : (s.frame q e).sent =
        (s.frame q e).hdr.encode ++ (s.frame q e).payload := by
      rw [frame_sent, hsent, Nat.sub_zero, List.take_length]
    constructor
    · exact hwhole
    · rw [hwhole, frame_size]
  · rw [qsend_results s n q hne, List.forall₂_map_right_iff]
    apply List.forall₂_same.mpr
    intro e _
    refine ⟨rfl, ?_, closed_iff_unsent s q e⟩
    exact (Clictx.Kept.destroyIf e.2 _).req
  · intro t r hcall d _ e _ hcli
    exact ⟨frame_congr hcall hcli, unsent_congr hcall hcli⟩

/-- Two clients; the frame of the first is cut short, and the other one's
arrives whole. -/
theorem qsend_isolates_failing_client :
    (TcpSrv.init.accept 5 |>.accept 9).Isolates 0
      { QsendIn.probe with
        sends := fun ip => if ip = 5 then [⟨3, 0⟩] else [⟨49, 0⟩] } :=
  qsend_isolates _ 0 _ (by decide)

end RoomSpeaker
