import RoomSpeaker.Foundation.Run
import RoomSpeaker.Verified.FrameSpec
import RoomSpeaker.Verified.ServerSpec

/-!
# From the server's pipe to a client's queue

The server sends the whole chunk whatever the size of the read, and says in the
header how much of it counts.  The client asks for the whole payload and compares
what it got with the header.  The two agree on full reads only.

## Main results

* `reception_spec` — one turn of the server loop and the `_check_stream` that
  receives its frame.
* `delivered_iff_fullReads` — the frames of a session are all accepted, with the
  bytes read and consecutive numbers, iff every read filled the chunk.
-/

namespace RoomSpeaker

open Foundation

/-! ## Sessions -/

/-- A client about to receive: its state, the slot it was handed, and the inputs
of `_check_stream` but the socket. -/
structure Reception where
  cli : Sclient
  rq : Circle
  slot : Nat
  time : Int
  tick : BitVec 64
  sends : List SendOut

/-- The slot was free, and handed out by `q_feedup`. -/
def Reception.Fed (c : Reception) : Prop :=
  (c.rq.at' c.slot).len = tcpSndLen ∧
  ∃ c₀ : Circle, c₀.CursorInv ∧ c₀.qFeedup false = (c.rq, some (.slot c.slot))

/-- `_check_stream` on what the socket holds. -/
def Reception.receive (c : Reception) (sock : List RecvOut) : StreamOut :=
  c.cli.checkStream c.rq (.slot c.slot) ⟨sock, c.time, c.tick, c.sends⟩

/-- A client receives one frame after the other from its socket: the chunk each
frame leaves in its slot, and whether it was accepted.  Between two frames the
player may have done anything to the client. -/
def receptions : List Reception → List RecvOut → List (Chunk × Bool)
  | [], _ => []
  | c :: cs, sock =>
      let r := c.receive sock
      (r.rq.at' c.slot, r.ok) :: receptions cs r.sock

/-- The bytes a turn has read. -/
def LoopIn.bytes (i : LoopIn) : List Byte := i.read.getD []

/--
A client is connected while the server makes these turns.

Each turn reads from one byte up to a full chunk; the client has a free slot for
each frame; and its socket, however cut up, delivers what the server sent, with
anything behind it.
-/
structure Serves (ip : Ip) (s : Server) (ts : List (LoopIn × Reception))
    (sock : List RecvOut) (rest : List Byte) : Prop where
  chunkLen : s.chunk.len = tcpSndLen
  reads : ∀ t ∈ ts, ∃ bs, t.1.read = some bs ∧ bs ≠ [] ∧
    bs.length ≤ tcpSndLen
  connected : Along Server.step (Server.Connected ip) s (ts.map Prod.fst)
  fed : ∀ t ∈ ts, t.2.Fed
  stream : delivered sock =
    trace Server.step (Server.sentTo ip) s (ts.map Prod.fst) ++ rest

/-- The turns of the server and the frames a client receives from them. -/
structure Session where
  server : Server
  ip : Ip
  turns : List (LoopIn × Reception)
  sock : List RecvOut
  rest : List Byte
  serves : Serves ip server turns sock rest

/-- What the client makes of the frames. -/
def Session.outs (x : Session) : List (Chunk × Bool) :=
  receptions (x.turns.map Prod.snd) x.sock

/-- Every frame is accepted; the chunk holds the bytes read and their number;
and the frames are numbered one after the other. -/
structure Delivers (reads : List (List Byte)) (outs : List (Chunk × Bool)) :
    Prop where
  accepted : ∀ o ∈ outs, o.2 = true
  bytes : List.Forall₂ (fun bs o => o.1.hdr.bufLen.toInt = bs.length ∧
    o.1.payload.take bs.length = bs) reads outs
  numbered : List.IsChain (fun a b => b = a + 1)
    (outs.map fun o => o.1.hdr.curSeq)

/-- What the server read is delivered to the client. -/
def Session.Delivered (x : Session) : Prop :=
  Delivers (x.turns.map fun t => t.1.bytes) x.outs

/-- Every read filled the chunk. -/
def Session.FullReads (x : Session) : Prop :=
  ∀ t ∈ x.turns, t.1.bytes.length = tcpSndLen

/-! ## One frame -/

/-- One turn and the `_check_stream` that receives its frame.  The bytes arrive
in any case; the frame is accepted when the read filled the chunk. -/
theorem reception_spec {ip : Ip} {s : Server} {i : LoopIn} {bs : List Byte}
    {c : Reception} {sock : List RecvOut} {after : List Byte}
    (hread : i.read = some bs) (hpos : bs ≠ []) (hle : bs.length ≤ tcpSndLen)
    (hchunk : s.chunk.len = tcpSndLen) (hconn : s.Connected ip i) (hfed : c.Fed)
    (hsock : delivered sock = s.sentTo ip i ++ after) :
    ((c.receive sock).ok = true ↔ bs.length = tcpSndLen) ∧
      ((c.receive sock).rq.at' c.slot).hdr.bufLen.toInt = bs.length ∧
      ((c.receive sock).rq.at' c.slot).payload.take bs.length = bs ∧
      (bs.length = tcpSndLen →
        ((c.receive sock).rq.at' c.slot).hdr.curSeq = s.frm + 1) ∧
      delivered (c.receive sock).sock = after := by
  obtain ⟨hdr, payload, hsent, hlen, htake, hbuf, hseq⟩ :=
    sentTo_read hread hpos (hchunk ▸ hle) (by rw [hchunk]; decide) hconn
  obtain ⟨hslot, c₀, hinv, hq⟩ := hfed
  have hin : c.slot < c.rq.queue.length := by
    rcases Circle.qFeedup_cases c₀ with ⟨hroom, _, hq'⟩ | ⟨_, hq'⟩
    · rw [hq'] at hq
      obtain ⟨hrq, hpk⟩ := Prod.mk.inj hq
      have hputi : c₀.puti = c.slot := by simpa using hpk
      rw [← hrq, (hinv.fed hroom).pool, ← hputi]
      exact hinv.puti_lt
    · rw [hq'] at hq
      simp at hq
  have hbytes := List.length_pos_of_ne_nil hpos
  have hne : hdr.bufLen ≠ 0 := by
    intro heq
    rw [heq] at hbuf
    have hzero : ((0 : BitVec 32)).toInt = 0 := by decide
    omega
  rw [hsent, List.append_assoc] at hsock
  obtain ⟨hcontent, hok, hrest⟩ := recvFrame_frame (c.rq.at' c.slot)
    hsock (by rw [hlen, hslot, hchunk]) hne
  obtain ⟨hhdr, hpayload⟩ := Prod.mk.inj hcontent
  have hat := checkStream_at c.cli hin ⟨sock, c.time, c.tick, c.sends⟩
  refine ⟨?_, ?_, ?_, ?_, ?_⟩
  · unfold Reception.receive
    rw [checkStream_ok]
    show (recvFrame (c.rq.at' c.slot) sock).ok = true ↔ _
    rw [hok, hbuf, hslot]
    exact Int.ofNat_inj
  · show ((c.cli.checkStream c.rq _ _).rq.at' c.slot).hdr.bufLen.toInt = _
    rw [hat, hhdr, hbuf]
  · show ((c.cli.checkStream c.rq _ _).rq.at' c.slot).payload.take _ = _
    rw [hat, hpayload, htake]
  · intro hfull
    show ((c.cli.checkStream c.rq _ _).rq.at' c.slot).hdr.curSeq = _
    rw [hat, hhdr]
    exact hseq (hfull.trans hchunk.symm)
  · unfold Reception.receive
    rw [checkStream_sock]
    exact hrest

/-! ## The frames of a session -/

/-- What one turn contributes, and that the rest of the session goes on. -/
private theorem Serves.head {ip : Ip} {s : Server} {t : LoopIn × Reception}
    {ts : List (LoopIn × Reception)} {sock : List RecvOut} {rest : List Byte}
    (h : Serves ip s (t :: ts) sock rest) :
    ((t.2.receive sock).ok = true ↔ t.1.bytes.length = tcpSndLen) ∧
      ((t.2.receive sock).rq.at' t.2.slot).hdr.bufLen.toInt =
        t.1.bytes.length ∧
      ((t.2.receive sock).rq.at' t.2.slot).payload.take t.1.bytes.length =
        t.1.bytes ∧
      (t.1.bytes.length = tcpSndLen →
        ((t.2.receive sock).rq.at' t.2.slot).hdr.curSeq = s.frm + 1 ∧
          (s.step t.1).frm = s.frm + 1) ∧
      Serves ip (s.step t.1) ts (t.2.receive sock).sock rest := by
  obtain ⟨bs, hread, hpos, hle⟩ := h.reads t List.mem_cons_self
  have hbytes : t.1.bytes = bs := by simp [LoopIn.bytes, hread]
  have hconn := h.connected.1
  have hsock := h.stream
  simp only [List.map_cons, trace, List.append_assoc] at hsock
  obtain ⟨hok, hbuf, htake, hseq, hrest⟩ := reception_spec hread hpos hle
    h.chunkLen hconn (h.fed t List.mem_cons_self) hsock
  have hchunk := h.chunkLen
  obtain ⟨hlen, hfrm⟩ := step_read hread hpos (by rw [hchunk]; exact hle)
    (by rw [hchunk]; decide) hconn.1
  rw [hchunk] at hlen hfrm
  rw [hbytes]
  refine ⟨hok, hbuf, htake, fun hfull => ⟨hseq hfull, hfrm hfull⟩, ?_⟩
  exact ⟨hlen, fun u hu => h.reads u (List.mem_cons_of_mem _ hu),
    h.connected.2, fun u hu => h.fed u (List.mem_cons_of_mem _ hu), hrest⟩

/-- With full reads the numbers follow on `frm`. -/
private theorem delivers_of_full {ip : Ip} (ts : List (LoopIn × Reception)) :
    ∀ (s : Server) (sock : List RecvOut) (rest : List Byte),
      Serves ip s ts sock rest →
      (∀ t ∈ ts, t.1.bytes.length = tcpSndLen) →
      (∀ o ∈ receptions (ts.map Prod.snd) sock, o.2 = true) ∧
      List.Forall₂ (fun bs o => o.1.hdr.bufLen.toInt = bs.length ∧
          o.1.payload.take bs.length = bs)
        (ts.map fun t => t.1.bytes) (receptions (ts.map Prod.snd) sock) ∧
      List.IsChain (fun a b => b = a + 1)
        (s.frm :: (receptions (ts.map Prod.snd) sock).map
          fun o => o.1.hdr.curSeq) := by
  induction ts with
  | nil =>
      intro s sock rest _ _
      exact ⟨fun o ho => by simp [receptions] at ho, List.Forall₂.nil,
        List.isChain_singleton _⟩
  | cons t ts ih =>
      intro s sock rest h hfull
      obtain ⟨hok, hbuf, htake, hseq, hnext⟩ := h.head
      have ht := hfull t List.mem_cons_self
      obtain ⟨hcur, hfrm⟩ := hseq ht
      obtain ⟨hall, hbytes, hchain⟩ := ih _ _ _ hnext
        fun u hu => hfull u (List.mem_cons_of_mem _ hu)
      refine ⟨?_, List.Forall₂.cons ⟨hbuf, htake⟩ hbytes, ?_⟩
      · intro o ho
        rcases List.mem_cons.mp ho with rfl | hrest
        · exact hok.mpr ht
        · exact hall o hrest
      · rw [hfrm, ← hcur] at hchain
        exact List.isChain_cons_cons.mpr ⟨hcur, hchain⟩

/-- A frame that is accepted carries a full read. -/
private theorem full_of_accepted {ip : Ip} (ts : List (LoopIn × Reception)) :
    ∀ (s : Server) (sock : List RecvOut) (rest : List Byte),
      Serves ip s ts sock rest →
      (∀ o ∈ receptions (ts.map Prod.snd) sock, o.2 = true) →
      ∀ t ∈ ts, t.1.bytes.length = tcpSndLen := by
  induction ts with
  | nil => intro s sock rest _ _ t ht; simp at ht
  | cons t ts ih =>
      intro s sock rest h hall u hu
      obtain ⟨hok, _, _, _, hnext⟩ := h.head
      rcases List.mem_cons.mp hu with rfl | hrest
      · exact hok.mp (hall _ List.mem_cons_self)
      · exact ih _ _ _ hnext (fun o ho => hall o (List.mem_cons_of_mem _ ho)) u
          hrest

/--
**Full reads are delivered, and no others.**

A session delivers its frames, each accepted with the bytes of its read and
numbered one after the other, exactly when every read filled the chunk.
-/
theorem delivered_iff_fullReads (x : Session) :
    x.Delivered ↔ x.FullReads := by
  constructor
  · intro h
    exact full_of_accepted x.turns _ _ _ x.serves h.accepted
  · intro h
    obtain ⟨hall, hbytes, hchain⟩ :=
      delivers_of_full x.turns _ _ _ x.serves h
    exact ⟨hall, hbytes, hchain.tail⟩

/-! ## A read of one byte -/

/-- One turn that reads `bs`, for one client that takes everything it is sent. -/
def LoopIn.reading (bs : List Byte) : LoopIn :=
  ⟨some bs, 0, fun _ => 0, fun _ => [⟨sizeofBufHdr + tcpSndLen, 0⟩],
    ⟨none, [], none, fun _ => [], fun _ => 0⟩⟩

/-- An empty queue has fed its first slot. -/
def Reception.first : Reception :=
  ⟨Sclient.new 0 0, (Circle.reserve 2 tcpSndLen).fed, 0, 0, 0, []⟩

private theorem first_fed : Reception.first.Fed :=
  ⟨by decide +kernel, Circle.reserve 2 tcpSndLen,
    Circle.CursorInv.reserve 2 tcpSndLen (by decide), rfl⟩

def Server.withClient (ip : Ip) : Server :=
  { Server.init with srv := TcpSrv.init.accept ip }

private theorem sendall_once {n : Nat} (hn : 0 < n) {buff : List Byte}
    (h : buff.length = n) : sendall buff [⟨n, 0⟩] = [] := by
  unfold sendall
  cases buff with
  | nil => rfl
  | cons b bs =>
      have hshot : ¬ ((n : Int) ≤ 0) := by omega
      simp only [sendallLoop, if_neg hshot, Int.toNat_natCast]
      rw [List.drop_eq_nil_of_le (Nat.le_of_eq h)]
      rfl

/-- The session of one turn. -/
def Session.reading (bs : List Byte) (hpos : bs ≠ [])
    (hle : bs.length ≤ tcpSndLen) : Session where
  server := Server.withClient 7
  ip := 7
  turns := [(LoopIn.reading bs, Reception.first)]
  sock := [.data ((Server.withClient 7).sentTo 7 (LoopIn.reading bs))]
  rest := []
  serves :=
    { chunkLen := by simp [Server.withClient, Server.init, Chunk.new, Chunk.len]
      reads := fun t ht => by
        rw [List.mem_singleton.mp ht]
        exact ⟨bs, rfl, hpos, hle⟩
      connected := by
        refine ⟨⟨rfl, Clictx.accepted 0, List.mem_cons_self, rfl, ?_⟩, trivial⟩
        intro buff hbuff
        apply sendall_once (by decide)
        rw [hbuff]
        simp [Chunk.size, Server.withClient, Server.init, Chunk.new, Chunk.len]
      fed := fun t ht => by
        rw [List.mem_singleton.mp ht]
        exact first_fed
      stream := by
        simp only [List.map_cons, List.map_nil, trace, List.append_nil]
        cases Server.sentTo 7 (Server.withClient 7) (LoopIn.reading bs) with
        | nil => rfl
        | cons b bs => simp [delivered] }

/-- The pipe brings one byte.  The frame announces one byte, the client receives
4096 and rejects it. -/
theorem delivered_fails_on_short_read :
    ¬ (Session.reading [5] (by decide) (by decide)).Delivered := by
  intro h
  exact absurd (h.accepted _ List.mem_cons_self) (by decide +kernel)

end RoomSpeaker
