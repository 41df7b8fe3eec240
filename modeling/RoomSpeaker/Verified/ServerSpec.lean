import RoomSpeaker.Model.Server
import RoomSpeaker.Verified.SrvSpec

/-!
# What one turn of the server loop sends

## Main results

* `bytesTo_qsend` — the bytes a `qsend` sends to one client are those of the one
  frame built for it.
* `sentTo_read` — after a read of at least one byte a connected client is sent a
  frame of the full chunk size, with the number of bytes read in its header.
* `step_read` — a read that fills the chunk advances the numbering by one.
-/

namespace RoomSpeaker

open Foundation

/-! ## One client's share of a `qsend` -/

/-- The frames for one address are those built for its entries. -/
private theorem filter_frames (p : Pilot) (q : QsendIn) (chunk : Chunk)
    (ip : Ip) (es : List (Ip × Clictx)) :
    (es.map (frameFor p q chunk)).filter (fun f => decide (f.ip = ip)) =
      (es.filter fun e => decide (e.1 = ip)).map (frameFor p q chunk) := by
  rw [List.filter_map]
  rfl

/-- A client in the map gets the bytes of its own frame. -/
theorem bytesTo_qsend (s : TcpSrv) (n : Nat) (q : QsendIn) {ip : Ip}
    {k : Clictx} (hne : q.chunk.hdr.bufLen ≠ 0)
    (hmem : (ip, k) ∈ s.clis.entries) :
    bytesTo ip (s.qsend n q).frames =
      (frameFor (s.qsendHead q.usecs).1.pilot q (s.stamped q) (ip, k)).sent := by
  unfold bytesTo
  rw [qsend_frames, if_neg hne, filter_frames, s.clis.filter_key hmem]
  simp

/-- An address that is not in the map gets nothing. -/
theorem bytesTo_qsend_absent (s : TcpSrv) (n : Nat) (q : QsendIn) {ip : Ip}
    (habs : ip ∉ s.clis.keys) : bytesTo ip (s.qsend n q).frames = [] := by
  have hnone : s.clis.entries.filter (fun e => decide (e.1 = ip)) = [] := by
    rw [List.filter_eq_nil_iff]
    intro e he hip
    apply habs
    rw [← of_decide_eq_true hip]
    exact List.mem_map_of_mem he
  unfold bytesTo
  rw [qsend_frames]
  split
  · rfl
  · rw [filter_frames, hnone]
    rfl

/-- An address gets nothing, or what was sent to the open client there. -/
theorem bytesTo_cases (s : TcpSrv) (n : Nat) (q : QsendIn) (ip : Ip)
    (hne : q.chunk.hdr.bufLen ≠ 0) :
    bytesTo ip (s.qsend n q).frames = [] ∨
    ∃ k, (ip, k) ∈ s.clis.entries ∧ k.isopen = true ∧
      bytesTo ip (s.qsend n q).frames =
        (frameFor (s.qsendHead q.usecs).1.pilot q (s.stamped q)
          (ip, k)).sent := by
  by_cases habs : ip ∈ s.clis.keys
  · obtain ⟨k, hmem⟩ := (s.clis.mem_keys ip).mp habs
    have hbytes := bytesTo_qsend s n q hne hmem
    cases hopen : k.isopen with
    | true => exact Or.inr ⟨k, hmem, hopen, hbytes⟩
    | false =>
        rw [hbytes]
        exact Or.inl (frameFor_sent_closed _ q _ (ip, k) hopen)
  · exact Or.inl (bytesTo_qsend_absent s n q habs)

/-- Sending fills in headers only. -/
theorem qsend_payload (s : TcpSrv) (n : Nat) (q : QsendIn) :
    (s.qsend n q).chunk.payload = q.chunk.payload := by
  have hloop : ∀ (p : Pilot) (es : List (Ip × Clictx)) (chunk : Chunk),
      (sendLoop p q chunk es).1.payload = chunk.payload := by
    intro p es
    induction es with
    | nil => intro chunk; rfl
    | cons e es ih =>
        intro chunk
        show (sendLoop p q (sendTo p q chunk e).1 es).1.payload = _
        rw [ih]
        unfold sendTo
        split <;> rfl
  exact hloop _ _ _

/-! ## Filling and numbering the chunk -/

/-- Reading keeps the size of the chunk. -/
theorem fill_len (s : Server) (read : Option (List Byte)) :
    (s.fill read).chunk.len = s.chunk.len := by
  cases read with
  | none => rfl
  | some bs =>
      show (bs.take s.chunk.payload.length ++ s.chunk.payload.drop
        (bs.take s.chunk.payload.length).length).length = s.chunk.payload.length
      simp only [List.length_append, List.length_drop, List.length_take]
      omega

@[simp] theorem number_len (s : Server) :
    s.number.chunk.len = s.chunk.len := by
  unfold Server.number
  split <;> rfl

@[simp] theorem number_srv (s : Server) : s.number.srv = s.srv := by
  unfold Server.number
  split <;> rfl

@[simp] theorem number_bufLen (s : Server) :
    s.number.chunk.hdr.bufLen = s.chunk.hdr.bufLen := by
  unfold Server.number
  split <;> rfl

@[simp] theorem number_payload (s : Server) :
    s.number.chunk.payload = s.chunk.payload := by
  unfold Server.number
  split <;> rfl

/-- A chunk that was filled gets the next number. -/
theorem number_full {s : Server}
    (h : s.chunk.hdr.bufLen.toInt = s.chunk.len) :
    s.number.frm = s.frm + 1 ∧ s.number.chunk.hdr.curSeq = s.frm + 1 := by
  rw [Server.number, if_pos h]
  exact ⟨rfl, rfl⟩

/-- A read of `bs`, which fits the chunk. -/
theorem fill_read {s : Server} {bs : List Byte}
    (hle : bs.length ≤ s.chunk.len) :
    (s.fill (some bs)).chunk.payload =
        bs ++ s.chunk.payload.drop bs.length ∧
      (s.fill (some bs)).chunk.hdr.bufLen = BitVec.ofInt 32 bs.length := by
  have htake : bs.take s.chunk.payload.length = bs :=
    List.take_of_length_le hle
  constructor
  · show bs.take _ ++ s.chunk.payload.drop (bs.take _).length = _
    rw [htake]
  · show BitVec.ofInt 32 ((bs.take s.chunk.payload.length).length : Nat) = _
    rw [htake]

/-- The first half of a turn sends nothing, or it sends the chunk. -/
theorem send_cases (s : Server) (i : LoopIn) :
    ((s.send i).1.srv = s.srv ∧ (s.send i).2.1 = []) ∨
    ∃ q : QsendIn, q.chunk.len = s.chunk.len ∧ q.chunk.hdr.bufLen ≠ 0 ∧
      (s.send i).1.srv = (s.srv.qsend 0 q).srv ∧
      (s.send i).2.1 = (s.srv.qsend 0 q).frames := by
  unfold Server.send
  simp only
  split
  · exact Or.inl ⟨rfl, rfl⟩
  · split
    · exact Or.inl ⟨rfl, rfl⟩
    next hne =>
      refine Or.inr
        ⟨⟨(s.fill i.read).number.chunk, i.t1, i.tick, i.sends⟩, ?_, ?_, ?_, ?_⟩
      · show (s.fill i.read).number.chunk.len = _
        rw [number_len, fill_len]
      · show (s.fill i.read).number.chunk.hdr.bufLen ≠ 0
        rwa [number_bufLen]
      · show ((s.fill i.read).number.srv.qsend 0 _).srv = _
        rw [number_srv]
        rfl
      · show ((s.fill i.read).number.srv.qsend 0 _).frames = _
        rw [number_srv]
        rfl

/-- Sending keeps the size of the chunk. -/
theorem send_len (s : Server) (i : LoopIn) :
    (s.send i).1.chunk.len = s.chunk.len := by
  unfold Server.send
  simp only
  split
  · exact fill_len s i.read
  · split
    · exact fill_len s i.read
    · show ((s.fill i.read).number.srv.qsend 0 _).chunk.payload.length = _
      rw [qsend_payload]
      show (s.fill i.read).number.chunk.len = _
      rw [number_len, fill_len]

/-! ## A turn that reads -/

/-- The loop runs, the client is in the map with an open socket, and the kernel
takes a whole frame for it. -/
def Server.Connected (ip : Ip) (s : Server) (i : LoopIn) : Prop :=
  s.alive = true ∧ ∃ k, (ip, k) ∈ s.srv.clis.entries ∧ k.isopen = true ∧
    ∀ buff : List Byte, buff.length = s.chunk.size →
      sendall buff (i.sends ip) = []

private theorem toInt_ofInt_length {n : Nat} (h : n < 2 ^ 31) :
    (BitVec.ofInt 32 n).toInt = n :=
  BitVec.toInt_ofInt_eq_self (by decide) (by omega) (by omega)

/-- A read of at least one byte goes to the clients. -/
theorem send_reads {s : Server} {i : LoopIn} {bs : List Byte}
    (hread : i.read = some bs) (hpos : bs ≠ [])
    (hle : bs.length ≤ s.chunk.len) (hint : s.chunk.len < 2 ^ 31) :
    s.send i =
      ({ (s.fill (some bs)).number with
          srv := (s.srv.qsend 0
            ⟨(s.fill (some bs)).number.chunk, i.t1, i.tick, i.sends⟩).srv
          chunk := (s.srv.qsend 0
            ⟨(s.fill (some bs)).number.chunk, i.t1, i.tick, i.sends⟩).chunk },
        (s.srv.qsend 0
          ⟨(s.fill (some bs)).number.chunk, i.t1, i.tick, i.sends⟩).frames,
        true) := by
  have hlen := (fill_read hle).2
  have hval := toInt_ofInt_length (Nat.lt_of_le_of_lt hle hint)
  have hbytes := List.length_pos_of_ne_nil hpos
  have herr : BitVec.ofInt 32 (bs.length : Int) ≠ -1 := by
    intro heq
    rw [heq] at hval
    have hneg : ((-1 : BitVec 32)).toInt = -1 := by decide
    omega
  have hzero : BitVec.ofInt 32 (bs.length : Int) ≠ 0 := by
    intro heq
    rw [heq] at hval
    have hz : ((0 : BitVec 32)).toInt = 0 := by decide
    omega
  unfold Server.send
  simp only [hread, hlen, if_neg herr, if_neg hzero, number_srv]
  rfl

/-- What a connected client is sent when the loop has read `bs`: a frame of the
full chunk size, with the number of bytes read in its header. -/
theorem sentTo_read {ip : Ip} {s : Server} {i : LoopIn} {bs : List Byte}
    (hread : i.read = some bs) (hpos : bs ≠ [])
    (hle : bs.length ≤ s.chunk.len) (hint : s.chunk.len < 2 ^ 31)
    (hconn : s.Connected ip i) :
    ∃ (hdr : BufHdr) (payload : List Byte),
      s.sentTo ip i = hdr.encode ++ payload ∧
      payload.length = s.chunk.len ∧ payload.take bs.length = bs ∧
      hdr.bufLen.toInt = bs.length ∧
      (bs.length = s.chunk.len → hdr.curSeq = s.frm + 1) := by
  obtain ⟨halive, k, hmem, hopen, hsends⟩ := hconn
  obtain ⟨hpayload, hbuf⟩ := fill_read hle
  have hval := toInt_ofInt_length (Nat.lt_of_le_of_lt hle hint)
  have hlen := fill_len s (some bs)
  have hbytes := List.length_pos_of_ne_nil hpos
  let q : QsendIn := ⟨(s.fill (some bs)).number.chunk, i.t1, i.tick, i.sends⟩
  have hne : q.chunk.hdr.bufLen ≠ 0 := by
    show (s.fill (some bs)).number.chunk.hdr.bufLen ≠ 0
    rw [number_bufLen, hbuf]
    intro heq
    rw [heq] at hval
    have hz : ((0 : BitVec 32)).toInt = 0 := by decide
    omega
  have hframes : (s.turn i).2 = (s.srv.qsend 0 q).frames := by
    unfold Server.turn
    rw [if_pos halive, send_reads hread hpos hle hint]
  let hdr := k.address (s.srv.qsendHead i.t1).1.pilot (i.tick ip)
    (s.srv.stamped q).hdr
  refine ⟨hdr, q.chunk.payload, ?_, ?_, ?_, ?_, ?_⟩
  · have hbuff : (hdr.encode ++ q.chunk.payload).length = s.chunk.size := by
      rw [List.length_append, BufHdr.length_encode]
      show sizeofBufHdr + (s.fill (some bs)).number.chunk.len = _
      rw [number_len, hlen]
      rfl
    unfold Server.sentTo
    rw [hframes, bytesTo_qsend s.srv 0 q hne hmem]
    show (hdr.encode ++ q.chunk.payload).take
      ((hdr.encode ++ q.chunk.payload).length -
        (sendall (hdr.encode ++ q.chunk.payload)
          (if k.isopen then i.sends ip else [])).length) = _
    rw [if_pos hopen, hsends _ hbuff, List.length_nil, Nat.sub_zero,
      List.take_length]
  · show (s.fill (some bs)).number.chunk.len = _
    rw [number_len, hlen]
  · show (s.fill (some bs)).number.chunk.payload.take bs.length = bs
    rw [number_payload, hpayload, List.take_left]
  · show (s.fill (some bs)).number.chunk.hdr.bufLen.toInt = _
    rw [number_bufLen, hbuf, hval]
  · intro hfull
    apply (number_full _).2
    rw [hbuf, hval, hlen, hfull]

/-- What a turn that reads leaves of the chunk and the numbering. -/
theorem step_read {s : Server} {i : LoopIn} {bs : List Byte}
    (hread : i.read = some bs) (hpos : bs ≠ [])
    (hle : bs.length ≤ s.chunk.len) (hint : s.chunk.len < 2 ^ 31)
    (halive : s.alive = true) :
    (s.step i).chunk.len = s.chunk.len ∧
      (bs.length = s.chunk.len → (s.step i).frm = s.frm + 1) := by
  have hstep : s.step i = (s.send i).1.serve i.pool := by
    unfold Server.step Server.turn
    rw [if_pos halive, send_reads hread hpos hle hint]
  rw [hstep, send_reads hread hpos hle hint]
  constructor
  · show ((s.srv.qsend 0 _).chunk.payload).length = _
    rw [qsend_payload]
    show (s.fill (some bs)).number.chunk.len = _
    rw [number_len, fill_len]
  · intro hfull
    show (s.fill (some bs)).number.frm = s.frm + 1
    apply (number_full _).1
    rw [(fill_read hle).2, fill_len, ← hfull]
    exact toInt_ofInt_length (Nat.lt_of_le_of_lt hle hint)

end RoomSpeaker
