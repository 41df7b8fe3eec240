import RoomSpeaker.Foundation.Records
import RoomSpeaker.Foundation.Run
import RoomSpeaker.Model.System
import RoomSpeaker.Verified.ServerSpec
import RoomSpeaker.Verified.SpeakerSpec

/-!
# The reports that are never asked for

A client sends its report only when a frame with `pilot_seq != 0` arrives.  The
server puts its `_pilotseq` there, and sets that only from a report.

## Main results

* `checkStream_unasked` — a frame without a pilot position makes no client send.
* `silentInv_step` — whatever server and clients do, `_pilotseq` is zero, every
  frame in flight says so, and no report is in flight.
* `handshake_never_starts` — no frame from a server without a pilot position is
  answered, and in no run does the server ever get one.
-/

namespace RoomSpeaker

open Foundation

/-! ## A frame without a pilot position -/

private theorem countBps_qos (cli : Sclient) (tick : BitVec 64) :
    (cli.countBps tick).qos = cli.qos := by
  unfold Sclient.countBps
  simp only
  split <;> rfl

/-- Acting on such a frame sends nothing and leaves the pending report alone. -/
private theorem onFrame_unasked (cli : Sclient) (rq : Circle) {h : BufHdr}
    (hzero : h.pilotSeq = 0) (bufLen : Nat) (i : StreamIn)
    (sock : List RecvOut) :
    (cli.onFrame rq h bufLen i sock).sent = [] ∧
      (cli.onFrame rq h bufLen i sock).cli.qos = cli.qos := by
  have hsyncs : h.syncs = false := by simp [BufHdr.syncs, hzero]
  unfold Sclient.onFrame
  simp only [hsyncs, Bool.false_eq_true, if_false]
  split
  · exact ⟨rfl, rfl⟩
  · exact ⟨rfl, countBps_qos _ _⟩

/-- However the bytes are cut, a frame without a pilot position makes no client
send its report. -/
theorem checkStream_unasked (cli : Sclient) (rq : Circle) (pk : ChunkRef)
    (i : StreamIn) {hdr : BufHdr} {rest : List Byte}
    (hsock : delivered i.recv = hdr.encode ++ rest) (hzero : hdr.pilotSeq = 0) :
    (cli.checkStream rq pk i).sent = [] ∧
      (cli.checkStream rq pk i).cli.qos = cli.qos := by
  have hhdr : (recvFrame (rq.deref pk) i.recv).chunk.hdr = hdr := by
    rw [recvFrame_hdr, hsock, BufHdr.take_encode, BufHdr.overlay_encode]
  unfold Sclient.checkStream
  simp only
  split
  · obtain ⟨hsent, hqos⟩ := onFrame_unasked
      (if (recvFrame (rq.deref pk) i.recv).whole then
        { cli with srvsync := true } else cli)
      (rq.assign pk (recvFrame (rq.deref pk) i.recv).chunk)
      (hhdr ▸ hzero) (recvFrame (rq.deref pk) i.recv).bufLen i
      (recvFrame (rq.deref pk) i.recv).sock
    refine ⟨hsent, hqos.trans ?_⟩
    split <;> rfl
  · refine ⟨rfl, ?_⟩
    simp only
    split <;> rfl

/-- Every frame of a `qsend` carries the server's pilot position. -/
theorem pilotSeq_frames {s : TcpSrv} {n : Nat} {q : QsendIn} {f : Frame}
    (hf : f ∈ (s.qsend n q).frames) :
    f.hdr.pilotSeq = (s.qsend n q).srv.pilot.seq := by
  rw [qsend_frames] at hf
  split at hf
  · simp at hf
  · obtain ⟨e, _, rfl⟩ := List.mem_map.mp hf
    rfl

/-- A server without a pilot position does not get one by sending. -/
theorem seq_qsend {s : TcpSrv} (n : Nat) (q : QsendIn) (h : s.pilot.seq = 0) :
    (s.qsend n q).srv.pilot.seq = 0 := by
  rw [qsend_pilot]
  split
  · rfl
  · exact h

/-! ## One client -/

/-- The bytes of a frame: a header and a full payload. -/
def frameSize : Nat := sizeofBufHdr + tcpSndLen

/-- The header of a frame without a pilot position. -/
def NoPilot (bs : List Byte) : Prop :=
  (BufHdr.decode bs).pilotSeq = 0 ∧ (BufHdr.decode bs).bufLen ≠ 0

/-- The network thread is not on its way to a resync or a report. -/
def Speaker.Unasked (s : Speaker) : Prop :=
  match s.net with
  | .frame pk _ => (s.rq.deref pk).hdr.pilotSeq = 0
  | .resync _ _ => False
  | .report _ => False
  | _ => True

/-- A client to which only frames without a pilot position are under way. -/
structure NodeInv (n : Node) : Prop where
  held : HeldInv n.spk
  scrap : n.spk.rq.scrap.len = tcpSndLen
  slots : ∀ j < n.spk.rq.maxqsz, (n.spk.rq.at' j).len = tcpSndLen
  frames : Heads frameSize sizeofBufHdr NoPilot n.toCli
  silent : n.toSrv = []
  unasked : n.spk.Unasked

theorem nodeInv_init {chunks : Nat} (hn : 0 < chunks) (tick : BitVec 64)
    (time : Int) : NodeInv (Node.init chunks tick time) where
  held := heldInv_init chunks tcpSndLen tick time hn
  scrap := (sized_init chunks tcpSndLen tick time).scrap
  slots := (sized_init chunks tcpSndLen tick time).slots
  frames := heads_nil NoPilot (by decide)
  silent := rfl
  unasked := trivial

theorem NodeInv.sized {n : Node} (h : NodeInv n) :
    n.spk.Sized tcpSndLen := ⟨h.scrap, h.slots⟩

/-- What every step of a client keeps. -/
private theorem NodeInv.step_spk {n : Node} (h : NodeInv n) (op : SpkOp) :
    HeldInv (n.spk.step op) ∧ (n.spk.step op).rq.scrap.len = tcpSndLen ∧
      ∀ j < (n.spk.step op).rq.maxqsz,
        ((n.spk.step op).rq.at' j).len = tcpSndLen := by
  have hsized := sized_step h.sized h.held.held.cursors op
  exact ⟨heldInv_step h.held op, hsized.scrap, hsized.slots⟩

/-- The player does not touch the header fields the network thread reads. -/
theorem NodeInv.player {n : Node} (h : NodeInv n) : NodeInv n.player := by
  obtain ⟨hheld, hscrap, hslots⟩ := h.step_spk .play
  refine ⟨hheld, hscrap, hslots, h.frames, h.silent, ?_⟩
  have hunasked := h.unasked
  unfold Speaker.Unasked at *
  show match n.spk.playStep.net with
    | .frame pk _ => (n.spk.playStep.rq.deref pk).hdr.pilotSeq = 0
    | .resync _ _ => False
    | .report _ => False
    | _ => True
  rw [net_playStep]
  cases hpc : n.spk.net with
  | frame pk bufLen =>
      rw [hpc] at hunasked
      rcases deref_step h.held.held.cursors .play pk with
        hsame | ⟨i, hop, _⟩ | ⟨_, hclear⟩
      · show ((n.spk.step .play).rq.deref pk).hdr.pilotSeq = 0
        rw [show ((n.spk.step .play).rq.deref pk).hdr = _ from
          congrArg Prod.fst hsame]
        exact hunasked
      · simp at hop
      · show ((n.spk.step .play).rq.deref pk).hdr.pilotSeq = 0
        rw [hclear]
        exact hunasked
  | resync pk newopt => rwa [hpc] at hunasked
  | report pk => rwa [hpc] at hunasked
  | _ => trivial

/-- A cut delivers a beginning of the bytes in flight. -/
theorem delivered_segments (cuts : List Nat) :
    ∀ bs, delivered (segments cuts bs) <+: bs := by
  induction cuts with
  | nil => intro bs; exact List.nil_prefix
  | cons c cuts ih =>
      intro bs
      unfold segments
      by_cases hnil : bs.take c = []
      · rw [hnil]
        exact List.nil_prefix
      · rw [delivered_data hnil]
        have hrest := (List.prefix_append_right_inj (bs.take c)).mpr
          (ih (bs.drop c))
        rwa [List.take_append_drop] at hrest

/-- A header received from the connection is one of a frame in flight. -/
theorem NodeInv.header {n : Node} (h : NodeInv n) {pk : Chunk}
    {cuts : List Nat}
    (hwhole : (recvFrame pk (segments cuts n.toCli)).whole = true) :
    NoPilot (n.toCli.take sizeofBufHdr) ∧
      (recvFrame pk (segments cuts n.toCli)).chunk.hdr =
        BufHdr.decode (n.toCli.take sizeofBufHdr) := by
  obtain ⟨hle, hhdr⟩ := recvFrame_whole hwhole
  obtain ⟨rest, hrest⟩ := delivered_segments cuts n.toCli
  have htake : (delivered (segments cuts n.toCli)).take sizeofBufHdr =
      n.toCli.take sizeofBufHdr :=
    (List.take_append_of_le_length hle).symm.trans (by rw [hrest])
  have hlen : sizeofBufHdr ≤ n.toCli.length := by
    have hall := congrArg List.length hrest
    rw [List.length_append] at hall
    omega
  rw [htake] at hhdr
  exact ⟨h.frames.first hlen, hhdr⟩

/-- What the connection holds after the two receives. -/
theorem NodeInv.rest {n : Node} (h : NodeInv n) {pk : ChunkRef}
    (hgot : n.spk.net = .got pk) {cuts : List Nat}
    (hshort : (recvFrame (n.spk.rq.deref pk)
      (segments cuts n.toCli)).short = false) :
    sizeofBufHdr + (recvFrame (n.spk.rq.deref pk)
      (segments cuts n.toCli)).bufLen = frameSize := by
  have hpk : n.spk.net.holds = some pk := by
    rw [hgot]
    rfl
  have hlen := h.sized.len_held h.held hpk
  unfold Received.short at hshort
  rw [Bool.or_eq_false_iff] at hshort
  have hwhole := by simpa using hshort.1
  obtain ⟨hnopilot, hhdr⟩ := h.header hwhole
  have hne : (recvFrame (n.spk.rq.deref pk)
      (segments cuts n.toCli)).chunk.hdr.bufLen ≠ 0 := by
    rw [hhdr]
    exact hnopilot.2
  have hfull := hshort.2
  rw [recvFrame_len, hlen] at hfull
  simp only [hne, ne_eq, not_false_eq_true, decide_true, Bool.true_and,
    decide_not, Bool.not_eq_false', decide_eq_true_eq] at hfull
  rw [hfull]
  rfl

/-- The input of a network step, with `recv` on the connection. -/
def Node.input (n : Node) (i : NetIn) (cuts : List Nat) : NetIn :=
  { i with stream := { i.stream with recv := segments cuts n.toCli } }

theorem net_spk (n : Node) (i : NetIn) (cuts : List Nat) :
    (n.net i cuts).spk = n.spk.step (.net (n.input i cuts)) := by
  unfold Node.net
  cases n.spk.net with
  | lost =>
      simp only
      split <;> rfl
  | got pk =>
      simp only
      split <;> rfl
  | done pk ok => cases pk <;> cases ok <;> rfl
  | _ => rfl

/-- What a network step does to the connection. -/
theorem NodeInv.net_conn {n : Node} (h : NodeInv n) (i : NetIn)
    (cuts : List Nat) :
    ((n.net i cuts).linked = true → n.linked = true) ∧
      (n.net i cuts).toSrv = [] ∧
      ((n.net i cuts).toCli = n.toCli ∨ (n.net i cuts).toCli = [] ∨
        (n.net i cuts).toCli = n.toCli.drop frameSize) := by
  have hunasked := h.unasked
  unfold Speaker.Unasked at hunasked
  unfold Node.net
  cases hpc : n.spk.net with
  | lost =>
      simp only
      split
      · exact ⟨fun hl => by simp at hl, rfl, Or.inr (Or.inl rfl)⟩
      · exact ⟨id, h.silent, Or.inl rfl⟩
  | got pk =>
      simp only
      split
      · exact ⟨fun hl => by simp at hl, h.silent, Or.inr (Or.inl rfl)⟩
      next hshort =>
        rw [h.rest hpc (Bool.eq_false_iff.mpr hshort)]
        exact ⟨id, h.silent, Or.inr (Or.inr rfl)⟩
  | report pk =>
      rw [hpc] at hunasked
      exact hunasked.elim
  | done pk ok =>
      cases pk with
      | scrap => cases ok <;> exact ⟨id, h.silent, Or.inl rfl⟩
      | slot j =>
          cases ok with
          | true => exact ⟨id, h.silent, Or.inl rfl⟩
          | false =>
              exact ⟨fun hl => by simp at hl, h.silent, Or.inr (Or.inl rfl)⟩
  | _ => exact ⟨id, h.silent, Or.inl rfl⟩

/-- A frame without a pilot position leads to no resync and no report. -/
private theorem NodeInv.net_unasked {n : Node} (h : NodeInv n) (i : NetIn)
    (cuts : List Nat) : (n.net i cuts).spk.Unasked := by
  have hunasked := h.unasked
  have hheld := h.held.held
  rw [net_spk]
  show (n.spk.netStep (n.input i cuts)).Unasked
  unfold Speaker.netStep
  cases hpc : n.spk.net with
  | lost =>
      simp only
      split
      · exact trivial
      · exact hunasked
  | loop =>
      simp only
      split
      · rcases Circle.qFeedup_cases n.spk.rq with ⟨_, _, hq⟩ | ⟨_, hq⟩
        · rw [hq]
          exact trivial
        · rw [hq]
          exact trivial
      · exact hunasked
  | got pk =>
      rw [hpc] at hheld
      simp only [Node.input]
      by_cases hok : (recvFrame (n.spk.rq.deref pk)
          (segments cuts n.toCli)).ok = true
      · simp only [hok, if_true]
        have hwhole : (recvFrame (n.spk.rq.deref pk)
            (segments cuts n.toCli)).whole = true :=
          ((Bool.and_eq_true _ _).mp hok).1
        obtain ⟨hnopilot, hhdr⟩ := h.header hwhole
        show ((n.spk.rq.assign pk _).deref pk).hdr.pilotSeq = 0
        rw [hheld.deref_assign, hhdr]
        exact hnopilot.1
      · simp only [hok]
        exact trivial
  | frame pk bufLen =>
      unfold Speaker.Unasked at hunasked
      rw [hpc] at hunasked
      have hsyncs : (n.spk.rq.deref pk).hdr.syncs = false := by
        simp [BufHdr.syncs, show (n.spk.rq.deref pk).hdr.pilotSeq = 0 from
          hunasked]
      simp only [hsyncs, Bool.false_eq_true, if_false]
      split <;> exact trivial
  | resync pk newopt =>
      unfold Speaker.Unasked at hunasked
      rw [hpc] at hunasked
      exact hunasked.elim
  | report pk =>
      unfold Speaker.Unasked at hunasked
      rw [hpc] at hunasked
      exact hunasked.elim
  | done pk ok => cases pk <;> cases ok <;> exact trivial

/-- Steps of the network thread. -/
theorem NodeInv.net {n : Node} (h : NodeInv n) (i : NetIn) (cuts : List Nat) :
    NodeInv (n.net i cuts) := by
  obtain ⟨hheld, hscrap, hslots⟩ := h.step_spk (.net (n.input i cuts))
  obtain ⟨_, hsilent, hflight⟩ := h.net_conn i cuts
  rw [← net_spk] at hheld hscrap hslots
  refine ⟨hheld, hscrap, hslots, ?_, hsilent, h.net_unasked i cuts⟩
  rcases hflight with hsame | hnone | hrest
  · rw [hsame]
    exact h.frames
  · rw [hnone]
    exact heads_nil NoPilot (by decide)
  · rw [hrest]
    exact heads_drop h.frames

/-! ## The server's side of a connection -/

/-- Frames are appended to whole frames. -/
theorem NodeInv.deliver {n : Node} (h : NodeInv n) {hdr : BufHdr}
    {payload : List Byte} {bs : List Byte}
    (hwhole : n.linked = true → n.toCli.length % frameSize = 0)
    (hbs : bs <+: hdr.encode ++ payload) (hlen : payload.length = tcpSndLen)
    (hzero : hdr.pilotSeq = 0) (hne : hdr.bufLen ≠ 0) :
    NodeInv (n.deliver bs) := by
  unfold Node.deliver
  split
  next hlinked =>
    refine ⟨h.held, h.scrap, h.slots, ?_, h.silent, h.unasked⟩
    have henc := hdr.length_encode
    have hsize : bs.length ≤ frameSize := by
      have hle := hbs.length_le
      rw [List.length_append, henc, hlen] at hle
      exact hle
    apply heads_append (by decide) (by decide) h.frames (hwhole hlinked) hsize
    intro hin
    obtain ⟨rest, hrest⟩ := hbs
    have htake : bs.take sizeofBufHdr = hdr.encode := by
      rw [← List.take_append_of_le_length hin, hrest, BufHdr.take_encode]
    unfold NoPilot
    rw [htake, BufHdr.decode_encode]
    exact ⟨hzero, hne⟩
  next => exact h

/-- A new connection has nothing in flight. -/
theorem NodeInv.accepted {n : Node} (h : NodeInv n) : NodeInv n.accepted :=
  ⟨h.held, h.scrap, h.slots, heads_nil NoPilot (by decide), h.silent, h.unasked⟩

/-- There is no report to take. -/
theorem NodeInv.taken {n : Node} (h : NodeInv n) (cuts : List Nat) :
    NodeInv (n.taken cuts) := by
  refine ⟨h.held, h.scrap, h.slots, h.frames, ?_, h.unasked⟩
  show (if _ then n.toSrv.drop sizeofBufHdr else []) = []
  rw [h.silent]
  split <;> rfl

private theorem deliver_nil (n : Node) : n.deliver [] = n := by
  unfold Node.deliver
  split
  · rw [List.append_nil]
  · rfl

private theorem deliver_linked (n : Node) (bs : List Byte) :
    (n.deliver bs).linked = n.linked := by
  unfold Node.deliver
  split <;> rfl

/-! ## The whole system -/

/--
The server has no pilot position, and neither has any frame in flight.

A connection that the server may send on holds whole frames, so the next one
starts where a client will look for a header.
-/
structure SilentInv (s : System) : Prop where
  seq : s.server.srv.pilot.seq = 0
  chunk : s.server.chunk.len = tcpSndLen
  nodes : ∀ ip, NodeInv (s.node ip)
  whole : ∀ ip k, (ip, k) ∈ s.server.srv.clis.entries → k.isopen = true →
    (s.node ip).linked = true → (s.node ip).toCli.length % frameSize = 0

theorem silentInv_init {chunks : Ip → Nat} (hn : ∀ ip, 0 < chunks ip)
    (tick : BitVec 64) (time : Int) :
    SilentInv (System.init chunks tick time) where
  seq := rfl
  chunk := List.length_replicate
  nodes := fun ip => nodeInv_init (hn ip) tick time
  whole := fun ip k hk => by
    simp [System.init, Server.init, TcpSrv.init, KeyMap.empty] at hk

/-- What the first half of a turn sends to a client. -/
private theorem SilentInv.nodes_send {s : System} (h : SilentInv s)
    (i : LoopIn) (ip : Ip) :
    NodeInv ((s.node ip).deliver (bytesTo ip (s.server.send i).2.1)) := by
  rcases send_cases s.server i with ⟨_, hnone⟩ | ⟨q, hlen, hne, _, hframes⟩
  · rw [hnone, show bytesTo ip [] = [] from rfl, deliver_nil]
    exact h.nodes ip
  · rw [hframes]
    rcases bytesTo_cases s.server.srv 0 q ip hne with hnil | ⟨k, hk, hopen, hsent⟩
    · rw [hnil, deliver_nil]
      exact h.nodes ip
    · rw [hsent]
      apply (h.nodes ip).deliver (h.whole ip k hk hopen)
        (List.take_prefix _ _)
      · exact hlen.trans h.chunk
      · show (s.server.srv.qsend 0 q).srv.pilot.seq = 0
        exact seq_qsend 0 q h.seq
      · exact hne

theorem SilentInv.send {s : System} (h : SilentInv s) (i : LoopIn) :
    SilentInv (s.send i) := by
  unfold System.send
  split
  · refine ⟨?_, (send_len s.server i).trans h.chunk, h.nodes_send i, ?_⟩
    · rcases send_cases s.server i with ⟨hsrv, _⟩ | ⟨q, _, _, hsrv, _⟩
      · show (s.server.send i).1.srv.pilot.seq = 0
        rw [hsrv]
        exact h.seq
      · show (s.server.send i).1.srv.pilot.seq = 0
        rw [hsrv]
        exact seq_qsend 0 q h.seq
    · intro ip k hk hopen hlinked
      have hbefore := (deliver_linked _ _).symm.trans hlinked
      show ((s.node ip).deliver
        (bytesTo ip (s.server.send i).2.1)).toCli.length % frameSize = 0
      rcases send_cases s.server i with
        ⟨hsrv, hnone⟩ | ⟨q, hlen, hne, hsrv, hframes⟩
      · rw [hnone, show bytesTo ip [] = [] from rfl, deliver_nil]
        rw [show (s.server.send i).1.srv = _ from hsrv] at hk
        exact h.whole ip k hk hopen hbefore
      · rw [show (s.server.send i).1.srv = _ from hsrv] at hk
        obtain ⟨k₀, hk₀, hopen₀, hsent⟩ := qsend_open hne hk hopen
        rw [hframes, bytesTo_qsend _ 0 q hne hk₀, hsent]
        unfold Node.deliver
        rw [if_pos hbefore]
        apply mod_append (h.whole ip k₀ hk₀ hopen₀ hbefore)
        rw [List.length_append, BufHdr.length_encode]
        exact congrArg (sizeofBufHdr + ·) (hlen.trans h.chunk)
  · exact h

theorem SilentInv.serve {s : System} (h : SilentInv s) (i : PoolIn)
    (cuts : Ip → List Nat) : SilentInv (s.serve i cuts) := by
  unfold System.serve
  split
  · refine ⟨?_, h.chunk, ?_, ?_⟩
    · have hnone : ∀ ip, delivered (segments (cuts ip) (s.node ip).toSrv) =
          [] := by
        intro ip
        have hprefix := delivered_segments (cuts ip) (s.node ip).toSrv
        rw [(h.nodes ip).silent] at hprefix ⊢
        exact List.prefix_nil.mp hprefix
      rcases pool_silent s.server.srv
        { i with recv := fun ip => segments (cuts ip) (s.node ip).toSrv }
        hnone with hsame | hzero
      · show (s.server.srv.pool _).1.pilot.seq = 0
        rw [hsame]
        exact h.seq
      · show (s.server.srv.pool _).1.pilot.seq = 0
        rw [hzero]
        rfl
    · intro ip
      simp only
      split
      · exact (h.nodes ip).accepted
      · split
        · exact (h.nodes ip).taken (cuts ip)
        · exact h.nodes ip
    · intro ip k hk hopen hlinked
      simp only at hlinked ⊢
      rcases pool_open hk hopen with hacc | ⟨hno, k₀, hk₀, hopen₀⟩
      · have hacc' : i.selectErr = none ∧ i.conn = some ip := hacc
        rw [if_pos hacc']
        rfl
      · have hno' : ¬(i.selectErr = none ∧ i.conn = some ip) := hno
        rw [if_neg hno'] at hlinked ⊢
        by_cases hready : i.selectErr = none ∧ ip ∈ i.ready
        · rw [if_pos hready] at hlinked ⊢
          exact h.whole ip k₀ hk₀ hopen₀ hlinked
        · rw [if_neg hready] at hlinked ⊢
          exact h.whole ip k₀ hk₀ hopen₀ hlinked
  · exact h

/-- A client's own step, on a connection that holds whole frames before and
after. -/
private theorem SilentInv.setNode {s : System} (h : SilentInv s) (a : Ip)
    {n : Node} (hnode : NodeInv n)
    (hwhole : n.linked = true → (s.node a).linked = true ∧
      ((s.node a).toCli.length % frameSize = 0 →
        n.toCli.length % frameSize = 0)) :
    SilentInv { s with node := Function.update s.node a n } := by
  refine ⟨h.seq, h.chunk, ?_, ?_⟩
  · intro ip
    show NodeInv (Function.update s.node a n ip)
    by_cases hip : ip = a
    · rw [hip, Function.update_self]
      exact hnode
    · rw [Function.update_of_ne hip]
      exact h.nodes ip
  · intro ip k hk hopen hlinked
    have hbefore := h.whole ip k hk hopen
    simp only at hlinked ⊢
    by_cases hip : ip = a
    · rw [hip, Function.update_self] at hlinked ⊢
      rw [hip] at hbefore
      obtain ⟨hold, hkeep⟩ := hwhole hlinked
      exact hkeep (hbefore hold)
    · rw [Function.update_of_ne hip] at hlinked ⊢
      exact hbefore hlinked

/-- No step of any program brings the server a pilot position. -/
theorem silentInv_step {s : System} (h : SilentInv s) (op : SysOp) :
    SilentInv (s.step op) := by
  cases op with
  | send i => exact h.send i
  | serve i cuts => exact h.serve i cuts
  | net a i cuts =>
      apply h.setNode a ((h.nodes a).net i cuts)
      intro hlinked
      obtain ⟨hl, _, hflight⟩ := (h.nodes a).net_conn i cuts
      refine ⟨hl hlinked, ?_⟩
      intro hbefore
      rcases hflight with hsame | hnone | hrest
      · rw [hsame]
        exact hbefore
      · rw [hnone]
        rfl
      · rw [hrest]
        exact mod_drop hbefore
  | play a => exact h.setNode a (h.nodes a).player fun hl => ⟨hl, id⟩

/-! ## The handshake -/

/-- A client answers a frame: it sends its pending report, once, and clears
it. -/
def Sclient.Answers (cli : Sclient) (hdr : BufHdr) (r : StreamOut) : Prop :=
  r.sent = { cli.qos with srvTick := hdr.srvTick }.encode ∧
    r.cli.qos.frmSig = 0

instance (cli : Sclient) (hdr : BufHdr) (r : StreamOut) :
    Decidable (cli.Answers hdr r) :=
  inferInstanceAs (Decidable (_ ∧ _))

/-- The server has no pilot position, and no report is on its way. -/
def System.Silent (s : System) : Prop :=
  s.server.srv.pilot.seq = 0 ∧ ∀ ip, (s.node ip).toSrv = []

theorem SilentInv.isSilent {s : System} (h : SilentInv s) : s.Silent :=
  ⟨h.seq, fun ip => (h.nodes ip).silent⟩

/--
**The handshake cannot start.**

No client answers a frame of a server that has no pilot position, whether its
report is pending or not and however the frame is cut up; and in no run of the
server and its clients, with any number of them joining and leaving, does the
server ever get a pilot position or a client ever send anything.
-/
theorem handshake_never_starts {s : TcpSrv} {n : Nat} {q : QsendIn} {f : Frame}
    {cli : Sclient} {rq : Circle} {pk : ChunkRef} {i : StreamIn}
    {rest : List Byte} (hseq : s.pilot.seq = 0)
    (hframe : f ∈ (s.qsend n q).frames)
    (hsock : delivered i.recv = f.hdr.encode ++ rest) (chunks : Ip → Nat)
    (hn : ∀ ip, 0 < chunks ip) (tick : BitVec 64) (time : Int)
    (ops : List SysOp) :
    ¬ cli.Answers f.hdr (cli.checkStream rq pk i) ∧
    Throughout System.step System.Silent (System.init chunks tick time) ops := by
  constructor
  · intro hans
    have hzero := (pilotSeq_frames hframe).trans (seq_qsend n q hseq)
    have hsent := (checkStream_unasked cli rq pk i hsock hzero).1
    have hlen := congrArg List.length hans.1
    rw [hsent, BufHdr.length_encode] at hlen
    simp [sizeofBufHdr] at hlen
  · exact throughout_of_inv (fun s op h => silentInv_step h op)
      (fun s h => h.isSilent) ops _ (silentInv_init hn tick time)

/-- A full chunk sent to clients that take everything. -/
def QsendIn.full (usecs : BitVec 64) : QsendIn :=
  ⟨⟨{ BufHdr.zero with bufLen := BitVec.ofNat 32 tcpSndLen },
      List.replicate tcpSndLen 0, false⟩, usecs, fun _ => 0,
    fun _ => [⟨frameSize, 0⟩]⟩

/-- One client has joined and was sent its first frame. -/
def TcpSrv.joined : TcpSrv := ((TcpSrv.init.accept 7).qsend 0 (.full 0)).srv

/-- The player has reported a played chunk. -/
def Sclient.pending : Sclient :=
  { Sclient.new 0 0 with
    qos := { BufHdr.zero with frmSig := syncData, curSeq := 1 } }

/-- The next frame, which is a `SYNC_DATA` frame. -/
def firstSync : Frame :=
  frameFor (TcpSrv.joined.qsendHead 300000).1.pilot (.full 300000)
    (TcpSrv.joined.stamped (.full 300000)) (7, Clictx.accepted 0)

private theorem firstSync_mem :
    firstSync ∈ (TcpSrv.joined.qsend 0 (.full 300000)).frames := by
  have hjoined : (7, Clictx.accepted 0) ∈ TcpSrv.joined.clis.entries := by
    decide +kernel
  rw [qsend_frames, if_neg (by decide)]
  exact List.mem_map_of_mem hjoined

/-- The inputs of a `_check_stream` that receives it in one piece. -/
def StreamIn.firstSync : StreamIn :=
  ⟨[.data (RoomSpeaker.firstSync.hdr.encode ++ RoomSpeaker.firstSync.payload)],
    0, 0, [⟨sizeofBufHdr, 0⟩]⟩

private theorem firstSync_delivered :
    delivered StreamIn.firstSync.recv =
      firstSync.hdr.encode ++ firstSync.payload := by
  have hne : firstSync.hdr.encode ++ firstSync.payload ≠ [] := by
    simp [BufHdr.encode, toBytes]
  show delivered [.data (firstSync.hdr.encode ++ firstSync.payload)] = _
  rw [delivered_data hne]
  exact List.append_nil _

/-- `handshake_never_starts` for this frame, and for a run in which a client
connects, is accepted and is sent a frame. -/
theorem handshake_one_client :
    ¬ Sclient.pending.Answers firstSync.hdr
        (Sclient.pending.checkStream (Circle.reserve 2 tcpSndLen).fed (.slot 0)
          StreamIn.firstSync) ∧
      Throughout System.step System.Silent (System.init (fun _ => 2) 0 0)
        [.net 7 ⟨true, true, StreamIn.firstSync⟩ [],
          .serve ⟨none, [], some 7, fun _ => [], fun _ => 0⟩ (fun _ => []),
          .send ⟨some [1, 2], 0, fun _ => 0, fun _ => [⟨frameSize, 0⟩],
            ⟨none, [], none, fun _ => [], fun _ => 0⟩⟩] :=
  handshake_never_starts (by decide +kernel : TcpSrv.joined.pilot.seq = 0)
    firstSync_mem firstSync_delivered (fun _ => 2) (fun _ => by decide) 0 0 _

/-- The only client is the pilot, and its report is pending.  The server's first
`SYNC_DATA` frame does not make it send the report. -/
theorem handshake_fails_at_start :
    firstSync ∈ (TcpSrv.joined.qsend 0 (.full 300000)).frames ∧
      firstSync.hdr.frmSig = syncData ∧
      ¬ Sclient.pending.Answers firstSync.hdr
        (Sclient.pending.checkStream (Circle.reserve 2 tcpSndLen).fed (.slot 0)
          StreamIn.firstSync) :=
  ⟨firstSync_mem, by decide +kernel, by decide +kernel⟩

end RoomSpeaker
