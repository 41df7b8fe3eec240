import RoomSpeaker.Foundation.Framing
import RoomSpeaker.Verified.Handshake
import RoomSpeaker.Verified.Playback

/-!
# Every room plays the broadcast

The server reads the pipe into one chunk, numbers it and sends it to every
client; each client receives it into its own queue and plays it from there.  Here
the whole way is followed, from the chunk that a turn of the loop hands to `qsend`
to the chunk that a player hands to `_play`, through the header that is filled in
for each client, the kernel's cuts, the ring and the two threads.

## Main results

* `System.aired`, `System.sent`, `System.received`, `System.played` — what a step
  does at each station of the way.
* `sentInv_step` — the frames a client has received and those on its connection
  are, in order, some of those sent to it; and all of them, while the connection
  is steady.
* `rooms_play_the_broadcast` — what a room plays is, in order, some of what was
  aired, whatever the other rooms do.
-/

namespace RoomSpeaker

open Foundation

/-! ## What is aired, sent, received and played -/

/-- The number and the samples of a chunk. -/
abbrev Aired := BitVec 32 × List Byte

def Content.aired (x : Content) : Aired := (x.1.curSeq, x.2)

/-- The bytes of a frame. -/
def Content.bytes (x : Content) : List Byte := x.1.encode ++ x.2

def Frame.content (f : Frame) : Content := (f.hdr, f.payload)

/-- The chunk that a turn of the loop hands to `qsend`, if it gets that far. -/
def Server.aired (s : Server) (i : LoopIn) : List Aired :=
  if (s.fill i.read).chunk.hdr.bufLen = -1 then []
  else if (s.fill i.read).chunk.hdr.bufLen = 0 then []
  else [Content.aired (s.fill i.read).number.chunk.content]

def System.aired (s : System) : SysOp → List Aired
  | .send i => if s.server.alive then s.server.aired i else []
  | _ => []

/-- The frames that were sent whole to an address. -/
def wholeTo (ip : Ip) (frames : List Frame) : List Content :=
  (frames.filter fun f =>
    decide (f.ip = ip) && decide (f.sent = f.content.bytes)).map Frame.content

/-- The frames that a step sends whole on the connection of the client at
`ip`. -/
def System.sent (ip : Ip) (s : System) : SysOp → List Content
  | .send i =>
      if s.server.alive ∧ (s.node ip).linked then
        wholeTo ip (s.server.send i).2.1
      else []
  | _ => []

/-- The step of the client program at an address that a step of the system is,
with its `recv` on the connection. -/
def System.spkOp (ip : Ip) (s : System) : SysOp → Option SpkOp
  | .net a i cuts => if a = ip then some (.net ((s.node ip).input i cuts)) else none
  | .play a => if a = ip then some .play else none
  | _ => none

/-- What a step makes the client at `ip` receive into its queue, and play. -/
def System.received (ip : Ip) (s : System) (op : SysOp) : List Content :=
  match s.spkOp ip op with
  | some o => (s.node ip).spk.received o
  | none => []

def System.played (ip : Ip) (s : System) (op : SysOp) : List Content :=
  match s.spkOp ip op with
  | some o => (s.node ip).spk.played o
  | none => []

/-- A receive into a slot is not cut short by the end of the connection. -/
def Speaker.ReceivesWhole (s : Speaker) : SpkOp → Prop
  | .net i => ∀ j ∈ s.net.receiving,
      (recvFrame (s.rq.at' j) i.stream.recv).short = false
  | .play => True

instance (s : Speaker) (op : SpkOp) : Decidable (s.ReceivesWhole op) :=
  match op with
  | .net _ => inferInstanceAs (Decidable (∀ j ∈ s.net.receiving, _))
  | .play => inferInstanceAs (Decidable True)

/-- The client at `ip` neither feeds a full ring nor takes a torn frame into its
queue. -/
def System.Listens (ip : Ip) (s : System) (op : SysOp) : Prop :=
  ∀ o ∈ s.spkOp ip op,
    (s.node ip).spk.RoomToFeed o ∧ (s.node ip).spk.ReceivesWhole o

instance (ip : Ip) (s : System) (op : SysOp) : Decidable (s.Listens ip op) :=
  inferInstanceAs (Decidable (∀ o ∈ s.spkOp ip op, _))

/-- The network thread gives the connection up, or receives into the scrap
chunk. -/
def Node.discards (n : Node) (i : NetIn) : Bool :=
  match n.spk.net with
  | .lost => i.up
  | .got .scrap => true
  | .done (.slot _) false => true
  | _ => false

/-- The step throws away what is in flight to the client at `ip`, or some of
it. -/
def System.discards (ip : Ip) (s : System) : SysOp → Bool
  | .net a i _ => decide (a = ip) && (s.node ip).discards i
  | .serve i _ =>
      s.server.alive && decide (i.selectErr = none ∧ i.conn = some ip)
  | _ => false

/-- The client listens, and nothing that was sent to it is thrown away. -/
def System.Steady (ip : Ip) (s : System) (op : SysOp) : Prop :=
  s.Listens ip op ∧ (s.discards ip op = true → (s.node ip).toCli = [])

instance (ip : Ip) (s : System) (op : SysOp) : Decidable (s.Steady ip op) :=
  inferInstanceAs (Decidable (_ ∧ (_ → _)))

/-- A step of the system is a step of the client program at an address or leaves
it alone. -/
theorem spk_step (ip : Ip) (s : System) (op : SysOp) :
    ((s.step op).node ip).spk =
      match s.spkOp ip op with
      | some o => (s.node ip).spk.step o
      | none => (s.node ip).spk := by
  cases op with
  | send i =>
      show ((s.send i).node ip).spk = _
      unfold System.send Node.deliver
      split
      · dsimp only
        split <;> rfl
      · rfl
  | serve i cuts =>
      show ((s.serve i cuts).node ip).spk = _
      unfold System.serve
      split
      · dsimp only
        split
        · rfl
        · split <;> rfl
      · rfl
  | net a i cuts =>
      show (Function.update s.node a ((s.node a).net i cuts) ip).spk = _
      by_cases ha : a = ip
      · subst ha
        simp only [Function.update_self, System.spkOp, if_pos]
        exact net_spk _ i cuts
      · simp only [Function.update_of_ne (Ne.symm ha), System.spkOp, if_neg ha]
  | play a =>
      show (Function.update s.node a (s.node a).player ip).spk = _
      by_cases ha : a = ip
      · subst ha
        simp only [Function.update_self, System.spkOp, if_pos]
        rfl
      · simp only [Function.update_of_ne (Ne.symm ha), System.spkOp, if_neg ha]

/-! ## The chunk that is aired -/

/-- The first half of a turn airs nothing and sends nothing, or it airs the
chunk that it hands to `qsend`. -/
theorem send_airs (s : Server) (i : LoopIn) :
    (s.aired i = [] ∧ (s.send i).1.srv = s.srv ∧ (s.send i).2.1 = []) ∨
    ∃ q : QsendIn, q.chunk.len = s.chunk.len ∧ q.chunk.hdr.bufLen ≠ 0 ∧
      s.aired i = [q.chunk.content.aired] ∧
      (s.send i).1.srv = (s.srv.qsend 0 q).srv ∧
      (s.send i).2.1 = (s.srv.qsend 0 q).frames := by
  unfold Server.send Server.aired
  simp only
  split
  · exact Or.inl ⟨rfl, rfl, rfl⟩
  · split
    · exact Or.inl ⟨rfl, rfl, rfl⟩
    next hne =>
      refine Or.inr ⟨⟨(s.fill i.read).number.chunk, i.t1, i.tick, i.sends⟩,
        ?_, ?_, rfl, ?_, ?_⟩
      · show (s.fill i.read).number.chunk.len = _
        rw [number_len, fill_len]
      · show (s.fill i.read).number.chunk.hdr.bufLen ≠ 0
        rwa [number_bufLen]
      · show ((s.fill i.read).number.srv.qsend 0 _).srv = _
        rw [number_srv]
        rfl
      · show ((s.fill i.read).number.srv.qsend 0 _).frames = _
        rw [number_srv]
        rfl

/-- What `qsend` fills in for a client is neither the number nor a sample. -/
theorem frameFor_aired (s : TcpSrv) (q : QsendIn) (e : Ip × Clictx) :
    Content.aired
        ((frameFor (s.qsendHead q.usecs).1.pilot q (s.stamped q) e).hdr,
          (frameFor (s.qsendHead q.usecs).1.pilot q (s.stamped q) e).payload) =
      q.chunk.content.aired := rfl

/-- The frames a `qsend` builds for an address: one if there is a client. -/
private theorem framesTo_qsend (s : TcpSrv) (n : Nat) (q : QsendIn) (ip : Ip)
    (hne : q.chunk.hdr.bufLen ≠ 0) :
    (s.qsend n q).frames.filter (fun f => decide (f.ip = ip)) = [] ∨
    ∃ k, (ip, k) ∈ s.clis.entries ∧
      (s.qsend n q).frames.filter (fun f => decide (f.ip = ip)) =
        [frameFor (s.qsendHead q.usecs).1.pilot q (s.stamped q) (ip, k)] := by
  have hfilter : (s.qsend n q).frames.filter (fun f => decide (f.ip = ip)) =
      (s.clis.entries.filter fun e => decide (e.1 = ip)).map
        (frameFor (s.qsendHead q.usecs).1.pilot q (s.stamped q)) := by
    rw [qsend_frames, if_neg hne, List.filter_map]
    rfl
  rw [hfilter]
  by_cases habs : ip ∈ s.clis.keys
  · obtain ⟨k, hk⟩ := (s.clis.mem_keys ip).mp habs
    rw [s.clis.filter_key hk]
    exact Or.inr ⟨k, hk, rfl⟩
  · have hnone : s.clis.entries.filter (fun e => decide (e.1 = ip)) = [] := by
      rw [List.filter_eq_nil_iff]
      intro e he hip
      apply habs
      rw [← of_decide_eq_true hip]
      exact List.mem_map_of_mem he
    rw [hnone]
    exact Or.inl rfl

/-- The frames that went whole are among those built for the address. -/
private theorem wholeTo_eq (ip : Ip) (frames : List Frame) :
    wholeTo ip frames =
      ((frames.filter fun f => decide (f.ip = ip)).filter fun f =>
        decide (f.sent = f.content.bytes)).map Frame.content := by
  unfold wholeTo
  rw [List.filter_filter]
  congr 1
  apply List.filter_congr
  intro f _
  exact Bool.and_comm _ _

/-- The server sends no `RESET_ALL`. -/
theorem qsendHead_sig (s : TcpSrv) (usecs : BitVec 64) :
    (s.qsendHead usecs).2 ≠ resetAll := by
  unfold TcpSrv.qsendHead
  split
  · show aliveData ≠ resetAll
    decide
  · split
    · show syncData ≠ resetAll
      decide
    · show aliveData ≠ resetAll
      decide

/-- A turn of the loop sends nothing to an address; or it sends the open client
there the frame of the chunk it airs, or the beginning of it. -/
theorem sendTo_cases (s : Server) (i : LoopIn) (ip : Ip) :
    (bytesTo ip (s.send i).2.1 = [] ∧ wholeTo ip (s.send i).2.1 = []) ∨
    ∃ (k : Clictx) (x : Content), (ip, k) ∈ s.srv.clis.entries ∧
      k.isopen = true ∧ x.2.length = s.chunk.len ∧ x.1.frmSig ≠ resetAll ∧
      s.aired i = [x.aired] ∧ bytesTo ip (s.send i).2.1 <+: x.bytes ∧
      wholeTo ip (s.send i).2.1 =
        if bytesTo ip (s.send i).2.1 = x.bytes then [x] else [] := by
  rcases send_airs s i with ⟨_, _, hnone⟩ | ⟨q, hlen, hne, hair, _, hframes⟩
  · rw [hnone]
    exact Or.inl ⟨rfl, rfl⟩
  · rw [hframes, wholeTo_eq]
    unfold bytesTo
    rcases framesTo_qsend s.srv 0 q ip hne with hnone | ⟨k, hk, hone⟩
    · rw [hnone]
      exact Or.inl ⟨rfl, rfl⟩
    · rw [hone, List.flatMap_singleton]
      generalize hf : frameFor (s.srv.qsendHead q.usecs).1.pilot q
        (s.srv.stamped q) (ip, k) = f
      have hpart : f.sent <+: f.content.bytes := by
        rw [← hf]
        exact List.take_prefix _ _
      have hwhole : ([f].filter fun f =>
          decide (f.sent = f.content.bytes)).map Frame.content =
          if f.sent = f.content.bytes then [f.content] else [] := by
        by_cases hall : f.sent = f.content.bytes
        · rw [if_pos hall, List.filter_cons_of_pos (by simpa using hall)]
          rfl
        · rw [if_neg hall, List.filter_cons_of_neg (by simpa using hall)]
          rfl
      cases hopen : k.isopen with
      | true =>
          refine Or.inr ⟨k, f.content, hk, hopen, ?_, ?_, ?_, hpart, hwhole⟩
          · rw [← hf]
            exact hlen
          · rw [← hf]
            exact qsendHead_sig s.srv q.usecs
          · rw [hair, ← frameFor_aired s.srv q (ip, k), hf]
            rfl
      | false =>
          have hnone : f.sent = [] := by
            rw [← hf]
            exact frameFor_sent_closed _ q _ (ip, k) hopen
          left
          rw [hwhole, if_neg]
          · exact ⟨hnone, rfl⟩
          · intro hall
            have hnil := (hnone.symm.trans hall).symm
            exact f.content.1.encode_ne_nil (List.append_eq_nil_iff.mp hnil).1

/-- What is sent whole was aired. -/
theorem sent_aired (ip : Ip) (s : System) (op : SysOp) :
    ((s.sent ip op).map Content.aired).Sublist (s.aired op) := by
  cases op with
  | send i =>
      unfold System.sent System.aired
      dsimp only
      by_cases halive : s.server.alive = true
      · rw [if_pos halive]
        split
        · rcases sendTo_cases s.server i ip with
            ⟨_, hnone⟩ | ⟨k, x, _, _, _, _, hair, _, hwhole⟩
          · rw [hnone]
            exact List.nil_sublist _
          · rw [hwhole, hair]
            split
            · exact List.Sublist.refl _
            · exact List.nil_sublist _
        · exact List.nil_sublist _
      · rw [if_neg (fun h => halive h.1)]
        exact List.nil_sublist _
  | _ => exact List.nil_sublist _

/-! ## The invariant -/

/-- The frames `fs` are on their way to the client, and those it has received
and they are, in order, some of those sent to it. -/
structure SentInv (n : Node) (got fs sent : List Content) : Prop where
  flight : Framed frameSize Content.bytes fs n.toCli
  order : (got ++ fs).Sublist sent

theorem sentInv_init {chunks : Nat} (tick : BitVec 64) (time : Int) :
    SentInv (Node.init chunks tick time) [] [] [] where
  flight := framed_nil (by decide)
  order := List.Sublist.refl _

section Steps

variable {n : Node} {got fs sent : List Content}

/-- The bytes in flight are what counts of the client. -/
theorem SentInv.congr {n' : Node} (h : SentInv n got fs sent)
    (hflight : n'.toCli = n.toCli) : SentInv n' got fs sent :=
  ⟨hflight ▸ h.flight, h.order⟩

/-- A connection that is given up loses what is in flight. -/
theorem SentInv.cut {n' : Node} (h : SentInv n got fs sent)
    (hflight : n'.toCli = []) : SentInv n' got [] sent where
  flight := hflight ▸ framed_nil (by decide)
  order := by
    rw [List.append_nil]
    exact (List.sublist_append_left _ _).trans h.order

/-- Nothing is lost when nothing was in flight. -/
theorem SentInv.cut_nil (h : SentInv n got fs sent) (hnil : n.toCli = []) :
    fs = [] :=
  Framed.nil_of_nil (hnil ▸ h.flight)

/-- The frame for a client, or the beginning of it, goes out behind whole
frames. -/
theorem SentInv.deliver (h : SentInv n got fs sent) {x : Content}
    {p : List Byte} (hp : p <+: x.bytes) (hlen : x.2.length = tcpSndLen)
    (hlinked : n.linked = true) (hwhole : n.toCli.length % frameSize = 0) :
    SentInv (n.deliver p) got (fs ++ if p = x.bytes then [x] else [])
      (sent ++ if p = x.bytes then [x] else []) := by
  have hsize : x.bytes.length = frameSize := by
    unfold Content.bytes
    rw [List.length_append, BufHdr.length_encode, hlen]
    rfl
  have hflight : (n.deliver p).toCli = n.toCli ++ p := by
    unfold Node.deliver
    rw [if_pos hlinked]
  constructor
  · rw [hflight]
    split
    next hall =>
      rw [hall]
      exact h.flight.append hwhole hsize
    next hpart =>
      rw [List.append_nil]
      apply h.flight.torn hwhole
      have hle := hp.length_le
      rw [hsize] at hle
      apply Nat.lt_of_le_of_ne hle
      intro heq
      exact hpart (hp.eq_of_length (heq.trans hsize.symm))
  · rw [← List.append_assoc]
    exact h.order.append_right _

/-- A receive that is not cut short takes the first frame in flight. -/
theorem SentInv.receive (h : SentInv n got fs sent) (hnode : NodeInv n)
    {pk : ChunkRef} (hgot : n.spk.net = .got pk) {cuts : List Nat}
    (hshort : (recvFrame (n.spk.rq.deref pk)
      (segments cuts n.toCli)).short = false) :
    ∃ rest, fs = (recvFrame (n.spk.rq.deref pk)
        (segments cuts n.toCli)).chunk.content :: rest ∧
      Framed frameSize Content.bytes rest (n.toCli.drop frameSize) := by
  have hpk : n.spk.net.holds = some pk := by
    rw [hgot]
    rfl
  have hlen := hnode.sized.len_held hnode.held hpk
  have htakes := hnode.rest hgot hshort
  have hwhole : (recvFrame (n.spk.rq.deref pk)
      (segments cuts n.toCli)).whole = true := by
    unfold Received.short at hshort
    rw [Bool.or_eq_false_iff] at hshort
    simpa using hshort.1
  obtain ⟨hle, _⟩ := recvFrame_whole hwhole
  -- the payload came whole, so the socket delivered a frame
  have hdel : frameSize ≤ (delivered (segments cuts n.toCli)).length := by
    have hbuf := (recvFrame_payload (n.spk.rq.deref pk) hle).2
    rw [hbuf] at htakes
    have hpos : sizeofBufHdr < frameSize := by decide
    split at htakes
    · omega
    · omega
  have hprefix := delivered_segments cuts n.toCli
  obtain ⟨f, rest, rfl, hsize, hbytes, hrest⟩ :=
    h.flight.uncons (Nat.le_trans hdel hprefix.length_le)
  refine ⟨rest, ?_, hrest⟩
  have hfront : f.bytes <+: delivered (segments cuts n.toCli) := by
    apply List.prefix_of_prefix_length_le ⟨_, hbytes.symm⟩ hprefix
    rw [hsize]
    exact hdel
  obtain ⟨later, hlater⟩ := hfront
  have hpayload : f.2.length = (n.spk.rq.deref pk).len := by
    unfold Content.bytes at hsize
    rw [List.length_append, BufHdr.length_encode] at hsize
    have hframe : frameSize = sizeofBufHdr + tcpSndLen := rfl
    omega
  have hne : f.1.bufLen ≠ 0 := by
    have hhead := hnode.frames.first (Nat.le_trans hle hprefix.length_le)
    have htake : n.toCli.take sizeofBufHdr = f.1.encode := by
      rw [hbytes]
      unfold Content.bytes
      rw [List.append_assoc, BufHdr.take_encode]
    rw [htake] at hhead
    unfold NoPilot at hhead
    rw [BufHdr.decode_encode] at hhead
    exact hhead.2
  have hsock : delivered (segments cuts n.toCli) =
      f.1.encode ++ (f.2 ++ later) := by
    rw [← hlater]
    unfold Content.bytes
    rw [List.append_assoc]
  rw [(recvFrame_frame (n.spk.rq.deref pk) hsock hpayload hne).1]

/-- A step of the network thread. -/
theorem SentInv.net (h : SentInv n got fs sent) (hnode : NodeInv n) (i : NetIn)
    (cuts : List Nat) (hwhole : n.spk.ReceivesWhole (.net (n.input i cuts))) :
    ∃ fs', SentInv (n.net i cuts)
        (got ++ n.spk.received (.net (n.input i cuts))) fs' sent ∧
      ((n.discards i = true → n.toCli = []) →
        got ++ n.spk.received (.net (n.input i cuts)) ++ fs' = got ++ fs) := by
  -- the connection as it was, or given up
  have hsame : ∀ n' : Node, n'.toCli = n.toCli → ∃ fs',
      SentInv n' got fs' sent ∧ ((n.discards i = true → n.toCli = []) →
        got ++ fs' = got ++ fs) :=
    fun n' hn => ⟨fs, h.congr hn, fun _ => rfl⟩
  have hcut : ∀ n' : Node, n.discards i = true → n'.toCli = [] → ∃ fs',
      SentInv n' got fs' sent ∧ ((n.discards i = true → n.toCli = []) →
        got ++ fs' = got ++ fs) :=
    fun n' hd hn =>
      ⟨[], h.cut hn, fun hkeep => by rw [h.cut_nil (hkeep hd)]⟩
  have hdis : n.discards i = match n.spk.net with
      | .lost => i.up
      | .got .scrap => true
      | .done (.slot _) false => true
      | _ => false := rfl
  unfold Node.net Speaker.received
  cases hpc : n.spk.net with
  | lost =>
      rw [hpc] at hdis
      simp only [List.append_nil]
      split
      next hup => exact hcut _ (hdis.trans hup) rfl
      next => exact hsame _ rfl
  | got pk =>
      rw [hpc] at hdis
      simp only
      split
      next hshort =>
        cases pk with
        | scrap =>
            simp only [List.append_nil]
            exact hcut _ hdis rfl
        | slot j =>
            have hj := hwhole j (NetPc.mem_receiving.mpr hpc)
            exact Bool.noConfusion (hshort.symm.trans hj)
      next hshort =>
        have hfull := Bool.eq_false_iff.mpr hshort
        obtain ⟨rest, hfs, hrest⟩ := h.receive hnode hpc hfull
        refine ⟨rest, ⟨?_, ?_⟩, ?_⟩
        · rw [hnode.rest hpc hfull]
          exact hrest
        · refine List.Sublist.trans ?_ h.order
          rw [hfs]
          cases pk with
          | scrap =>
              simp only [List.append_nil]
              exact (List.Sublist.refl got).append
                (List.sublist_cons_self _ rest)
          | slot j =>
              rw [List.append_assoc]
              exact List.Sublist.refl _
        · intro hkeep
          cases pk with
          | scrap =>
              have hnil := h.cut_nil (hkeep hdis)
              rw [hfs] at hnil
              cases hnil
          | slot j =>
              rw [hfs, List.append_assoc]
              rfl
  | done pk ok =>
      rw [hpc] at hdis
      simp only [List.append_nil]
      cases pk with
      | scrap => cases ok <;> exact hsame _ rfl
      | slot j =>
          cases ok with
          | true => exact hsame _ rfl
          | false => exact hcut _ hdis rfl
  | _ =>
      simp only [List.append_nil]
      exact hsame _ rfl

end Steps

section System

variable {s : System} {ip : Ip} {got fs sent : List Content}

/-- A step after which the client has received no more and was sent no more. -/
private theorem sent_idle {op : SysOp} {n' : Node}
    (h : SentInv (s.node ip) got fs sent) (hop : s.spkOp ip op = none)
    (hsent : s.sent ip op = []) (hsame : n'.toCli = (s.node ip).toCli) :
    ∃ fs', SentInv n' (got ++ s.received ip op) fs' (sent ++ s.sent ip op) ∧
      (s.Steady ip op → got ++ fs = sent →
        got ++ s.received ip op ++ fs' = sent ++ s.sent ip op) := by
  have hnone : s.received ip op = [] := by
    unfold System.received
    rw [hop]
  rw [hnone, hsent, List.append_nil, List.append_nil]
  exact ⟨fs, h.congr hsame, fun _ heq => heq⟩

/-- A turn of the server. -/
private theorem sent_send (hs : SilentInv s) (i : LoopIn)
    (h : SentInv (s.node ip) got fs sent) :
    ∃ fs', SentInv ((s.send i).node ip) (got ++ s.received ip (.send i)) fs'
        (sent ++ s.sent ip (.send i)) ∧
      (s.Steady ip (.send i) → got ++ fs = sent →
        got ++ s.received ip (.send i) ++ fs' =
          sent ++ s.sent ip (.send i)) := by
  unfold System.send
  by_cases halive : s.server.alive = true
  · rw [if_pos halive]
    have hnode : ∀ n' : Node, n' = (s.node ip).deliver
        (bytesTo ip (s.server.send i).2.1) → n'.toCli =
          if (s.node ip).linked then
            (s.node ip).toCli ++ bytesTo ip (s.server.send i).2.1
          else (s.node ip).toCli := by
      rintro n' rfl
      unfold Node.deliver
      split <;> rfl
    by_cases hlinked : (s.node ip).linked = true
    · have hsent : s.sent ip (.send i) = wholeTo ip (s.server.send i).2.1 :=
        if_pos ⟨halive, hlinked⟩
      rcases sendTo_cases s.server i ip with
        ⟨hnil, hnone⟩ | ⟨k, x, hk, hopen, hlen, _, _, hpart, hwhole⟩
      · refine sent_idle h rfl (hsent.trans hnone) ?_
        show ((s.node ip).deliver (bytesTo ip (s.server.send i).2.1)).toCli = _
        rw [hnode _ rfl, if_pos hlinked, hnil, List.append_nil]
      · rw [hsent, hwhole, show s.received ip (.send i) = [] from rfl,
          List.append_nil]
        refine ⟨_, h.deliver hpart (hlen.trans hs.chunk) hlinked
          (hs.whole ip k hk hopen hlinked), ?_⟩
        intro _ heq
        rw [← List.append_assoc, heq]
    · refine sent_idle h rfl (if_neg fun hboth => hlinked hboth.2) ?_
      show ((s.node ip).deliver (bytesTo ip (s.server.send i).2.1)).toCli = _
      rw [hnode _ rfl, if_neg hlinked]
  · rw [if_neg halive]
    exact sent_idle h rfl (if_neg fun hboth => halive hboth.1) rfl

/-- `pool` sends nothing, and a connection it accepts starts empty. -/
private theorem sent_serve (i : PoolIn) (cuts : Ip → List Nat)
    (h : SentInv (s.node ip) got fs sent) :
    ∃ fs', SentInv ((s.serve i cuts).node ip)
        (got ++ s.received ip (.serve i cuts)) fs'
        (sent ++ s.sent ip (.serve i cuts)) ∧
      (s.Steady ip (.serve i cuts) → got ++ fs = sent →
        got ++ s.received ip (.serve i cuts) ++ fs' =
          sent ++ s.sent ip (.serve i cuts)) := by
  unfold System.serve
  by_cases halive : s.server.alive = true
  · rw [if_pos halive]
    by_cases hacc : i.selectErr = none ∧ i.conn = some ip
    · have hdis : s.discards ip (.serve i cuts) = true := by
        simp [System.discards, halive, hacc]
      have hcut : SentInv (s.node ip).accepted got [] sent := h.cut rfl
      rw [show s.received ip (.serve i cuts) = [] from rfl,
        show s.sent ip (.serve i cuts) = [] from rfl, List.append_nil,
        List.append_nil]
      refine ⟨[], ?_, ?_⟩
      · dsimp only
        rw [if_pos hacc]
        exact hcut
      · intro hsteady heq
        rw [← heq, h.cut_nil (hsteady.2 hdis)]
    · refine sent_idle h rfl rfl ?_
      dsimp only
      rw [if_neg hacc]
      split <;> rfl
  · rw [if_neg halive]
    exact sent_idle h rfl rfl rfl

/-- Every step of the system. -/
theorem sentInv_step (hs : SilentInv s) (op : SysOp)
    (h : SentInv (s.node ip) got fs sent) (hlisten : s.Listens ip op) :
    ∃ fs', SentInv ((s.step op).node ip) (got ++ s.received ip op) fs'
        (sent ++ s.sent ip op) ∧
      (s.Steady ip op → got ++ fs = sent →
        got ++ s.received ip op ++ fs' = sent ++ s.sent ip op) := by
  cases op with
  | send i => exact sent_send hs i h
  | serve i cuts => exact sent_serve i cuts h
  | net a i cuts =>
      have hnode : (s.step (.net a i cuts)).node ip =
          Function.update s.node a ((s.node a).net i cuts) ip := rfl
      by_cases ha : a = ip
      · subst ha
        have hop : s.spkOp a (.net a i cuts) =
            some (.net ((s.node a).input i cuts)) := if_pos rfl
        have hrecv : s.received a (.net a i cuts) =
            (s.node a).spk.received (.net ((s.node a).input i cuts)) := by
          unfold System.received
          rw [hop]
        obtain ⟨fs', hinv, hkeep⟩ :=
          h.net (hs.nodes a) i cuts (hlisten _ hop).2
        rw [hnode, Function.update_self, hrecv,
          show s.sent a (.net a i cuts) = [] from rfl, List.append_nil]
        refine ⟨fs', hinv, ?_⟩
        intro hsteady heq
        rw [← heq]
        apply hkeep
        intro hdis
        apply hsteady.2
        simp [System.discards, hdis]
      · have hop : s.spkOp ip (.net a i cuts) = none := if_neg ha
        apply sent_idle h hop rfl
        rw [hnode, Function.update_of_ne (Ne.symm ha)]
  | play a =>
      have hnode : (s.step (.play a)).node ip =
          Function.update s.node a (s.node a).player ip := rfl
      by_cases ha : a = ip
      · subst ha
        have hop : s.spkOp a (.play a) = some .play := if_pos rfl
        have hrecv : s.received a (.play a) = [] := by
          unfold System.received
          rw [hop]
          rfl
        rw [hnode, Function.update_self, hrecv,
          show s.sent a (.play a) = [] from rfl, List.append_nil,
          List.append_nil]
        exact ⟨fs, h.congr rfl, fun _ heq => heq⟩
      · have hop : s.spkOp ip (.play a) = none := if_neg ha
        apply sent_idle h hop rfl
        rw [hnode, Function.update_of_ne (Ne.symm ha)]

end System

/-! ## Runs -/

/-- What a room has played is, by way of what it has received, some of what was
sent to it. -/
structure BroadcastInv (ip : Ip) (s : System) (heard sent : List Content) :
    Prop where
  silent : SilentInv s
  way : ∃ f got fs, PlaybackInv f (s.node ip).spk got heard ∧
    SentInv (s.node ip) got fs sent

theorem broadcastInv_init {chunks : Ip → Nat} (hn : ∀ ip, 0 < chunks ip)
    (tick : BitVec 64) (time : Int) (ip : Ip) :
    BroadcastInv ip (System.init chunks tick time) [] [] where
  silent := silentInv_init hn tick time
  way := ⟨Fifo.empty, [], [],
    playbackInv_init (chunks ip) tcpSndLen tick time (hn ip),
    sentInv_init tick time⟩

/-- What a step of the system is for the player at an address. -/
theorem playback_step {ip : Ip} {s : System} {f : Fifo} {got heard : List Content}
    (h : PlaybackInv f (s.node ip).spk got heard) (op : SysOp)
    (hroom : ∀ o ∈ s.spkOp ip op, (s.node ip).spk.RoomToFeed o) :
    ∃ f', PlaybackInv f' ((s.step op).node ip).spk (got ++ s.received ip op)
        (heard ++ s.played ip op) ∧
      ((∀ o ∈ s.spkOp ip op, (s.node ip).spk.KeepsQueued o) →
        f'.lost = f.lost) := by
  have hspk := spk_step ip s op
  unfold System.received System.played
  cases hop : s.spkOp ip op with
  | none =>
      rw [hop] at hspk
      refine ⟨f, ?_, fun _ => rfl⟩
      simp only [List.append_nil]
      rw [show ((s.step op).node ip).spk = (s.node ip).spk from hspk]
      exact h
  | some o =>
      rw [hop] at hspk
      obtain ⟨f', h', hlost⟩ := playbackInv_step h o (hroom o hop)
      refine ⟨f', ?_, fun hkeep => hlost (hkeep o rfl)⟩
      rw [show ((s.step op).node ip).spk = (s.node ip).spk.step o from hspk]
      exact h'

theorem broadcastInv_step {ip : Ip} {s : System} {heard sent : List Content}
    (h : BroadcastInv ip s heard sent) (op : SysOp) (hlisten : s.Listens ip op) :
    BroadcastInv ip (s.step op) (heard ++ s.played ip op)
      (sent ++ s.sent ip op) := by
  obtain ⟨f, got, fs, hplay, hsent⟩ := h.way
  obtain ⟨f', hplay', _⟩ := playback_step hplay op fun o ho => (hlisten o ho).1
  obtain ⟨fs', hsent', _⟩ := sentInv_step h.silent op hsent hlisten
  exact ⟨silentInv_step h.silent op, f', _, fs', hplay', hsent'⟩

/-- What a room plays it has received, and what it has received was sent to it. -/
theorem BroadcastInv.sublist {ip : Ip} {s : System} {heard sent : List Content}
    (h : BroadcastInv ip s heard sent) : heard.Sublist sent := by
  obtain ⟨f, got, fs, hplay, hsent⟩ := h.way
  calc
    List.Sublist heard got := hplay.sim.fifoRefines.sublist
    List.Sublist _ (got ++ fs) := List.sublist_append_left got fs
    List.Sublist _ sent := hsent.order

theorem broadcastInv_run {chunks : Ip → Nat} (hn : ∀ ip, 0 < chunks ip)
    (tick : BitVec 64) (time : Int) (ip : Ip) {ops : List SysOp}
    (hlisten : Along System.step (System.Listens ip)
      (System.init chunks tick time) ops) :
    BroadcastInv ip (run System.step (System.init chunks tick time) ops)
      (trace System.step (System.played ip) (System.init chunks tick time) ops)
      (trace System.step (System.sent ip) (System.init chunks tick time) ops) :=
  trace_inv_nil (C := System.Listens ip) (I := BroadcastInv ip)
    (fun _ op _ _ h hl => broadcastInv_step h op hl)
    (broadcastInv_init hn tick time ip) hlisten

/--
**Every room plays the broadcast.**

In every run of the server and any number of clients, in any order of their
steps: as long as the client at `ip` does not feed a full ring and takes no torn
frame into its queue, what it plays is, in order and each chunk at most once,
some of what the server aired.  What the other clients do, and how often this one
comes and goes, does not matter.
-/
theorem rooms_play_the_broadcast {chunks : Ip → Nat} (hn : ∀ ip, 0 < chunks ip)
    (tick : BitVec 64) (time : Int) (ip : Ip) (ops : List SysOp)
    (hlisten : Along System.step (System.Listens ip)
      (System.init chunks tick time) ops) :
    ((trace System.step (System.played ip) (System.init chunks tick time)
        ops).map Content.aired).Sublist
      (trace System.step System.aired (System.init chunks tick time) ops) := by
  have hplayed := (broadcastInv_run hn tick time ip hlisten).sublist
  refine (hplayed.map Content.aired).trans ?_
  rw [map_trace]
  exact sublist_trace (fun s op _ => sent_aired ip s op) ops _ hlisten

/-- Room 7 joins, a full chunk is read and sent, and the room receives it in two
pieces and plays it. -/
def onAir : List SysOp :=
  [.net 7 (NetIn.having []) [],
    .serve ⟨none, [], some 7, fun _ => [], fun _ => 0⟩ (fun _ => []),
    .send ⟨some (List.replicate tcpSndLen 5), 0, fun _ => 0,
      fun _ => [⟨frameSize, 0⟩], ⟨none, [], none, fun _ => [], fun _ => 0⟩⟩,
    .net 7 (NetIn.having []) [],
    .net 7 (NetIn.having []) [100, frameSize - 100],
    .net 7 (NetIn.having []) [],
    .net 7 (NetIn.having []) []] ++
  List.replicate 7 (.play 7)

/-- `rooms_play_the_broadcast` for this run. -/
theorem room_plays_one_chunk :
    ((trace System.step (System.played 7) (System.init (fun _ => 1) 0 0)
        onAir).map Content.aired).Sublist
      (trace System.step System.aired (System.init (fun _ => 1) 0 0) onAir) :=
  rooms_play_the_broadcast (fun _ => by decide) 0 0 7 onAir (by decide +kernel)

end RoomSpeaker
