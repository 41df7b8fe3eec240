import RoomSpeaker.Foundation.Pointwise
import RoomSpeaker.Model.TcpSrv
import RoomSpeaker.Verified.SockSpec

/-!
# What `qsend` and `pool` do to the clients

Both calls walk the client map in place.  Here their effect on each client is
stated apart from the walk, so that the results about indices, pilot flags and
pilot fields need not open a loop again.

## Main results

* `qsend_clients`, `qsend_frames` — `qsend` changes nothing of a client but its
  socket, and sends each client one frame, built from that client alone.
* `readLoop_clients` — the reading loop changes each client as its own `rec`
  does.
* `clean_entries` — `_clean` keeps the open clients and numbers them in address
  order.
* `pool_cases` — the three ways through `pool`.
* `served_cases`, `mem_clean_keys` — whom the call leaves in the map.
-/

namespace RoomSpeaker

open Foundation

/-! ## `rec` -/

@[simp] theorem Clictx.rec_index (k : Clictx) (p : Pilot) (tick : BitVec 64)
    (sock : List RecvOut) : (k.rec' p tick sock).1.index = k.index := by
  unfold Clictx.rec'
  simp only
  split
  · rfl
  · split <;> rfl

/-- A client stays open exactly when it was open and delivered something. -/
theorem Clictx.rec_isopen (k : Clictx) (p : Pilot) (tick : BitVec 64)
    (recv : List RecvOut) :
    (k.rec' p tick (k.sock recv)).1.isopen = true ↔
      k.isopen = true ∧ delivered recv ≠ [] := by
  cases hopen : k.isopen with
  | false =>
      have hnone : (receiveall sizeofBufHdr (k.sock recv)).1 = [] := by
        apply receiveall_eq_nil
        simp [Clictx.sock, hopen]
      simp [Clictx.rec', hnone, Clictx.destroy]
  | true =>
      have hsock : k.sock recv = recv := by simp [Clictx.sock, hopen]
      have hlen := length_receiveall sizeofBufHdr recv
      have hsize : sizeofBufHdr = 48 := rfl
      rw [hsock]
      unfold Clictx.rec'
      by_cases hnone : delivered recv = []
      · have hrt := receiveall_eq_nil sizeofBufHdr recv hnone
        simp [hrt, hnone, Clictx.destroy]
      · have hpos := List.length_pos_of_ne_nil hnone
        have hrt : (receiveall sizeofBufHdr recv).1.length ≠ 0 := by omega
        simp only [if_neg hrt]
        split
        · simp [hopen, hnone]
        · simp [hopen, hnone]

/-! ## `qsend` -/

/-- What a `qsend` leaves of a client: everything but perhaps its socket. -/
structure Clictx.Kept (k k' : Clictx) : Prop where
  index : k'.index = k.index
  req : k'.req = k.req
  isopen : k'.isopen = true → k.isopen = true

theorem Clictx.Kept.refl (k : Clictx) : k.Kept k := ⟨rfl, rfl, id⟩

/-- Destroying the socket or not keeps the client. -/
theorem Clictx.Kept.destroyIf (k : Clictx) (failed : Prop) [Decidable failed] :
    k.Kept (if failed then k.destroy else k) := by
  by_cases h : failed
  · rw [if_pos h]
    exact ⟨rfl, rfl, fun hopen => by simp [Clictx.destroy] at hopen⟩
  · rw [if_neg h]
    exact Clictx.Kept.refl k

/-- The loop of `qsend` changes no client but for closing sockets. -/
private theorem sendLoop_clients (p : Pilot) (i : QsendIn) (es : List (Ip × Clictx)) :
    ∀ chunk, List.Forall₂ (fun e e' => e'.1 = e.1 ∧ e.2.Kept e'.2) es
      (sendLoop p i chunk es).2.1 := by
  induction es with
  | nil => intro chunk; exact List.Forall₂.nil
  | cons e es ih =>
      intro chunk
      apply List.Forall₂.cons
      · constructor
        · exact sendTo_key p i chunk e
        · unfold sendTo
          split
          · exact Clictx.Kept.refl e.2
          · exact Clictx.Kept.destroyIf e.2 _
      · exact ih (sendTo p i chunk e).1

/-- The frame `qsend` sends to a client. -/
def frameFor (p : Pilot) (i : QsendIn) (chunk : Chunk) (e : Ip × Clictx) :
    Frame :=
  let c := { chunk with hdr := e.2.address p (i.tick e.1) chunk.hdr }
  let left := sendall c.buff (if e.2.isopen then i.sends e.1 else [])
  ⟨e.1, e.2.index, c.hdr, c.payload, c.buff.take (c.buff.length - left.length)⟩

private theorem sendTo_chunk (p : Pilot) (i : QsendIn) (chunk : Chunk)
    (e : Ip × Clictx) (h : chunk.hdr.bufLen ≠ 0) :
    (sendTo p i chunk e).1 =
      { chunk with hdr := e.2.address p (i.tick e.1) chunk.hdr } := by
  rw [sendTo, if_neg h]

/-- Each client is sent one frame, which depends on no other client. -/
private theorem sendLoop_frames (p : Pilot) (i : QsendIn) (es : List (Ip × Clictx)) :
    ∀ chunk : Chunk, chunk.hdr.bufLen ≠ 0 →
      (sendLoop p i chunk es).2.2 = es.map (frameFor p i chunk) := by
  induction es with
  | nil => intro chunk _; rfl
  | cons e es ih =>
      intro chunk h
      have hhead : (sendTo p i chunk e).2.2 = [frameFor p i chunk e] := by
        rw [sendTo, if_neg h]
        rfl
      have htail := ih (sendTo p i chunk e).1 (by rw [sendTo_chunk p i chunk e h]; exact h)
      rw [sendTo_chunk p i chunk e h] at htail
      simp only [sendLoop, hhead, List.map_cons, List.singleton_append]
      rw [sendTo_chunk p i chunk e h, htail]
      rfl

/-- An empty chunk is sent to nobody. -/
private theorem sendLoop_frames_nil (p : Pilot) (i : QsendIn)
    (es : List (Ip × Clictx)) :
    ∀ chunk : Chunk, chunk.hdr.bufLen = 0 →
      (sendLoop p i chunk es).2.2 = [] := by
  induction es with
  | nil => intro chunk _; rfl
  | cons e es ih =>
      intro chunk h
      simp only [sendLoop, sendTo, if_pos h, List.nil_append]
      exact ih chunk h

theorem qsendHead_clis (s : TcpSrv) (usecs : BitVec 64) :
    (s.qsendHead usecs).1.clis = s.clis := by
  unfold TcpSrv.qsendHead
  split
  · rfl
  · split <;> rfl

/-- The chunk with the header fields that are the same for all clients. -/
def TcpSrv.stamped (s : TcpSrv) (q : QsendIn) : Chunk :=
  { q.chunk with
    hdr := (s.qsendHead q.usecs).1.pilot.stamp (s.qsendHead q.usecs).2
      q.chunk.hdr }

/-- `qsend` changes no client but for closing sockets. -/
theorem qsend_clients (s : TcpSrv) (n : Nat) (q : QsendIn) :
    List.Forall₂ (fun e e' => e'.1 = e.1 ∧ e.2.Kept e'.2) s.clis.entries
      (s.qsend n q).srv.clis.entries := by
  have h := sendLoop_clients (s.qsendHead q.usecs).1.pilot q
    (s.qsendHead q.usecs).1.clis.entries (s.stamped q)
  nth_rewrite 1 [qsendHead_clis] at h
  exact h

/-- A `qsend` of a chunk that is not empty sends one frame to each client. -/
theorem qsend_frames (s : TcpSrv) (n : Nat) (q : QsendIn) :
    (s.qsend n q).frames =
      if q.chunk.hdr.bufLen = 0 then []
      else s.clis.entries.map
        (frameFor (s.qsendHead q.usecs).1.pilot q (s.stamped q)) := by
  have hframes : (s.qsend n q).frames =
      (sendLoop (s.qsendHead q.usecs).1.pilot q (s.stamped q)
        (s.qsendHead q.usecs).1.clis.entries).2.2 := rfl
  rw [hframes, qsendHead_clis]
  by_cases hlen : q.chunk.hdr.bufLen = 0
  · rw [if_pos hlen]
    exact sendLoop_frames_nil _ q s.clis.entries (s.stamped q) hlen
  · rw [if_neg hlen]
    exact sendLoop_frames _ q s.clis.entries (s.stamped q) hlen

/-- What `qsend` does to the pilot fields. -/
theorem qsend_pilot (s : TcpSrv) (n : Nat) (q : QsendIn) :
    (s.qsend n q).srv.pilot =
      if s.newclient then { s.pilot with seq := 0, ping := 0 } else s.pilot := by
  show (s.qsendHead q.usecs).1.pilot = _
  unfold TcpSrv.qsendHead
  split
  · rfl
  · split <;> rfl

/-- Nothing reaches a client whose socket is closed. -/
theorem frameFor_sent_closed (p : Pilot) (i : QsendIn) (chunk : Chunk)
    (e : Ip × Clictx) (h : e.2.isopen = false) :
    (frameFor p i chunk e).sent = [] := by
  simp [frameFor, h]

/-- What `sendall` leaves of the frame for a client. -/
def leftFor (p : Pilot) (i : QsendIn) (chunk : Chunk) (e : Ip × Clictx) :
    List Byte :=
  sendall
    ({ chunk with hdr := e.2.address p (i.tick e.1) chunk.hdr } : Chunk).buff
    (if e.2.isopen then i.sends e.1 else [])

/-- The client after its turn of the loop. -/
def sentClient (p : Pilot) (i : QsendIn) (chunk : Chunk) (e : Ip × Clictx) :
    Ip × Clictx :=
  (e.1, if (leftFor p i chunk e).length ≠ 0 then e.2.destroy else e.2)

/-- Each client is closed or kept by the result of its own `sendall`. -/
private theorem sendLoop_results (p : Pilot) (i : QsendIn)
    (es : List (Ip × Clictx)) :
    ∀ chunk : Chunk, chunk.hdr.bufLen ≠ 0 →
      (sendLoop p i chunk es).2.1 = es.map (sentClient p i chunk) := by
  induction es with
  | nil => intro chunk _; rfl
  | cons e es ih =>
      intro chunk h
      have hhead : (sendTo p i chunk e).2.1 = sentClient p i chunk e := by
        rw [sendTo, if_neg h]
        rfl
      have hchunk := sendTo_chunk p i chunk e h
      have htail := ih (sendTo p i chunk e).1 (by rw [hchunk]; exact h)
      rw [hchunk] at htail
      simp only [sendLoop, hhead, List.map_cons]
      rw [hchunk, htail]
      rfl

/-- A `qsend` of a chunk that is not empty closes the clients whose frame was
not sent whole. -/
theorem qsend_results (s : TcpSrv) (n : Nat) (q : QsendIn)
    (hne : q.chunk.hdr.bufLen ≠ 0) :
    (s.qsend n q).srv.clis.entries = s.clis.entries.map
      (sentClient (s.qsendHead q.usecs).1.pilot q (s.stamped q)) := by
  have hloop := sendLoop_results (s.qsendHead q.usecs).1.pilot q
    (s.qsendHead q.usecs).1.clis.entries (s.stamped q) hne
  nth_rewrite 2 [qsendHead_clis] at hloop
  exact hloop

theorem sentClient_isopen (p : Pilot) (i : QsendIn) (chunk : Chunk)
    (e : Ip × Clictx) :
    (sentClient p i chunk e).2.isopen = true ↔
      e.2.isopen = true ∧ leftFor p i chunk e = [] := by
  unfold sentClient
  by_cases hleft : leftFor p i chunk e = []
  · simp [hleft]
  · simp [hleft, Clictx.destroy]

/-- When nothing is left, the whole frame was sent. -/
theorem frameFor_sent_whole {p : Pilot} {i : QsendIn} {chunk : Chunk}
    {e : Ip × Clictx} (h : leftFor p i chunk e = []) :
    (frameFor p i chunk e).sent =
      (frameFor p i chunk e).hdr.encode ++ chunk.payload := by
  have hsent : (frameFor p i chunk e).sent =
      ((frameFor p i chunk e).hdr.encode ++ chunk.payload).take
        (((frameFor p i chunk e).hdr.encode ++ chunk.payload).length -
          (leftFor p i chunk e).length) := rfl
  rw [hsent, h, List.length_nil, Nat.sub_zero, List.take_length]

/-- A client that is open after a `qsend` was open before, and was sent its whole
frame. -/
theorem qsend_open {s : TcpSrv} {n : Nat} {q : QsendIn} {ip : Ip} {k' : Clictx}
    (hne : q.chunk.hdr.bufLen ≠ 0)
    (hmem : (ip, k') ∈ (s.qsend n q).srv.clis.entries)
    (hopen : k'.isopen = true) :
    ∃ k, (ip, k) ∈ s.clis.entries ∧ k.isopen = true ∧
      (frameFor (s.qsendHead q.usecs).1.pilot q (s.stamped q) (ip, k)).sent =
        (frameFor (s.qsendHead q.usecs).1.pilot q (s.stamped q)
          (ip, k)).hdr.encode ++ q.chunk.payload := by
  rw [qsend_results s n q hne] at hmem
  obtain ⟨⟨a, k⟩, he, heq⟩ := List.mem_map.mp hmem
  obtain rfl : a = ip := congrArg Prod.fst heq
  have hkept : (sentClient (s.qsendHead q.usecs).1.pilot q (s.stamped q)
      (a, k)).2.isopen = true := by
    rw [heq]
    exact hopen
  obtain ⟨hk, hleft⟩ := (sentClient_isopen _ _ _ _).mp hkept
  exact ⟨k, he, hk, frameFor_sent_whole hleft⟩

/-! ## The reading loop -/

/-- The reading loop treats each client by itself, but for the pilot fields it
finds. -/
theorem readLoop_clients (i : PoolIn) (rd : List Ip)
    (es : List (Ip × Clictx)) :
    ∀ p, List.Forall₂ (fun e e' => ∃ q, e' = (readOne i rd q e).2) es
      (readLoop i rd p es).2 := by
  induction es with
  | nil => intro p; exact List.Forall₂.nil
  | cons e es ih =>
      intro p
      apply List.Forall₂.cons
      · exact ⟨p, rfl⟩
      · exact ih (readOne i rd p e).1

@[simp] theorem readOne_index (i : PoolIn) (rd : List Ip) (p : Pilot)
    (e : Ip × Clictx) : (readOne i rd p e).2.2.index = e.2.index := by
  unfold readOne
  split
  · exact Clictx.rec_index _ _ _ _
  · rfl

/-- A client that is read stays open when it delivers something. -/
theorem readOne_isopen (i : PoolIn) (rd : List Ip) (p : Pilot)
    (e : Ip × Clictx) :
    (readOne i rd p e).2.2.isopen = true ↔
      e.2.isopen = true ∧ (e.1 ∈ rd → delivered (i.recv e.1) ≠ []) := by
  unfold readOne
  by_cases hrd : e.1 ∈ rd
  · simp only [if_pos hrd]
    rw [Clictx.rec_isopen]
    simp [hrd]
  · simp [hrd]

/-! ## `_clean` -/

theorem erase_size {m : KeyMap Ip Clictx} {e : Ip × Clictx}
    (h : e ∈ m.entries) : m.size = (m.erase e.1).size + 1 := by
  have hperm := (m.perm_erase (k := e.1) (v := e.2) h).length_eq
  rwa [List.length_cons] at hperm

/-- Erasing a closed client does not touch the open ones. -/
private theorem filter_erase {m : KeyMap Ip Clictx} {e : Ip × Clictx}
    (h : e ∈ m.entries) (hclosed : e.2.isopen = false) :
    (m.erase e.1).entries.filter (fun e => e.2.isopen) =
      m.entries.filter fun e => e.2.isopen := by
  show (m.entries.filter _).filter _ = _
  rw [List.filter_filter]
  apply List.filter_congr
  rintro ⟨k, v⟩ hmem
  by_cases hk : k = e.1
  · subst hk
    have hv := m.eq_of_mem hmem h
    simp [hv, hclosed]
  · simp [hk]

/-- With enough passes the open clients are left. -/
theorem eraseClosed_entries (n : Nat) :
    ∀ m : KeyMap Ip Clictx, m.size ≤ n →
      (eraseClosed n m).entries = m.entries.filter fun e => e.2.isopen := by
  induction n with
  | zero =>
      intro m hm
      have hnil : m.entries = [] := List.length_eq_zero_iff.mp (Nat.le_zero.mp hm)
      simp [eraseClosed, hnil]
  | succ n ih =>
      intro m hm
      rw [eraseClosed]
      cases hfind : m.entries.find? fun e => !e.2.isopen with
      | none =>
          have hall := List.find?_eq_none.mp hfind
          apply Eq.symm
          rw [List.filter_eq_self]
          intro e he
          simpa using hall e he
      | some e =>
          have hmem := List.mem_of_find?_eq_some hfind
          have hclosed : e.2.isopen = false := by
            simpa using List.find?_some hfind
          have hsize := erase_size hmem
          rw [← filter_erase hmem hclosed]
          exact ih (m.erase e.1) (by omega)

/-- `_clean` keeps the open clients and numbers them in address order. -/
theorem clean_entries (s : TcpSrv) :
    s.clean.clis.entries =
      numbered (s.clis.entries.filter fun e => e.2.isopen) := by
  show numbered (eraseClosed s.clis.size s.clis).entries = _
  rw [eraseClosed_entries s.clis.size s.clis (Nat.le_refl _)]

@[simp] theorem length_numbered (es : List (Ip × Clictx)) :
    (numbered es).length = es.length := by
  simp [numbered]

/-- The indices after a renumbering. -/
theorem numbered_indices (es : List (Ip × Clictx)) :
    (numbered es).map (fun e => e.2.index) = List.range es.length := by
  apply List.ext_getElem <;> simp [numbered]

/-- The entries of a renumbered map. -/
theorem mem_numbered {es : List (Ip × Clictx)} :
    (∀ e ∈ es, ∃ k, (e.1, { e.2 with index := k }) ∈ numbered es) ∧
    ∀ e' ∈ numbered es, ∃ e ∈ es, ∃ k, e' = (e.1, { e.2 with index := k }) := by
  constructor
  · intro e he
    obtain ⟨k, hk, rfl⟩ := List.getElem_of_mem he
    exact ⟨k, List.mem_mapIdx.mpr ⟨k, hk, rfl⟩⟩
  · intro e' he'
    obtain ⟨k, hk, rfl⟩ := List.mem_mapIdx.mp he'
    exact ⟨es[k], List.getElem_mem hk, k, rfl⟩

/-! ## `pool` -/

/-- A `pool` call that gets past `select` with work for `_clean`. -/
def TcpSrv.Cleans (s : TcpSrv) (i : PoolIn) : Prop :=
  i.selectErr = none ∧
    (s.dirty = true ∨ ∃ e ∈ s.clis.entries, e.2.isopen = false)

instance (s : TcpSrv) (i : PoolIn) : Decidable (s.Cleans i) :=
  inferInstanceAs (Decidable (_ ∧ _))

/-- A `pool` call that accepts a connection from the address. -/
def PoolIn.Accepts (i : PoolIn) (ip : Ip) : Prop :=
  i.selectErr = none ∧ i.conn = some ip

instance (i : PoolIn) (ip : Ip) : Decidable (i.Accepts ip) :=
  inferInstanceAs (Decidable (_ ∧ _))

/-- The server after the accepting and the reading part of a `pool` call. -/
def TcpSrv.served (s : TcpSrv) (i : PoolIn) : TcpSrv :=
  (s.markDirty.acceptIf i.conn).readAll i i.readSet

private theorem served_dirty (s : TcpSrv) (i : PoolIn) :
    (s.served i).dirty = s.markDirty.dirty := by
  unfold TcpSrv.served TcpSrv.readAll
  cases i.conn <;> rfl

private theorem markDirty_dirty (s : TcpSrv) :
    s.markDirty.dirty = true ↔
      s.dirty = true ∨ ∃ e ∈ s.clis.entries, e.2.isopen = false := by
  simp [TcpSrv.markDirty, List.any_eq_true]

/-- The three ways through `pool`. -/
theorem pool_cases (s : TcpSrv) (i : PoolIn) :
    (i.selectErr ≠ none ∧ (s.pool i).1 = s.markDirty) ∨
    (s.Cleans i ∧ (s.pool i).1 = (s.served i).clean) ∨
    (i.selectErr = none ∧ ¬s.Cleans i ∧ (s.pool i).1 = s.served i) := by
  cases herr : i.selectErr with
  | some errno =>
      apply Or.inl
      exact ⟨by simp, by rw [TcpSrv.pool, herr]⟩
  | none =>
      apply Or.inr
      have hdirty : (s.served i).dirty = true ↔ s.Cleans i := by
        rw [served_dirty, markDirty_dirty]
        unfold TcpSrv.Cleans
        simp [herr]
      by_cases hclean : s.Cleans i
      · apply Or.inl
        refine ⟨hclean, ?_⟩
        rw [TcpSrv.pool, herr]
        exact if_pos (hdirty.mpr hclean)
      · apply Or.inr
        refine ⟨rfl, hclean, ?_⟩
        rw [TcpSrv.pool, herr]
        exact if_neg (fun h => hclean (hdirty.mp h))

/-! ## The clients after a `pool` call -/

theorem mem_acceptIf (s : TcpSrv) (conn : Option Ip) (e : Ip × Clictx) :
    e ∈ (s.acceptIf conn).clis.entries ↔
      (conn = some e.1 ∧ e.2 = Clictx.accepted s.clis.size) ∨
      (conn ≠ some e.1 ∧ e ∈ s.clis.entries) := by
  cases conn with
  | none => simp [TcpSrv.acceptIf]
  | some ip =>
      have h := s.clis.mem_insert ip (Clictx.accepted s.clis.size) e
      show e ∈ (s.clis.insert ip _).entries ↔ _
      rw [h]
      obtain ⟨a, k⟩ := e
      simp only [Prod.mk.injEq, Option.some.injEq, ne_eq]
      constructor
      · rintro (⟨rfl, rfl⟩ | ⟨hmem, hne⟩)
        · exact Or.inl ⟨rfl, rfl⟩
        · exact Or.inr ⟨fun heq => hne heq.symm, hmem⟩
      · rintro (⟨rfl, rfl⟩ | ⟨hne, hmem⟩)
        · exact Or.inl ⟨rfl, rfl⟩
        · exact Or.inr ⟨hmem, fun heq => hne heq.symm⟩

/-- A client that was there before is read when `select` reported it. -/
private theorem readOne_readSet {i : PoolIn} {e : Ip × Clictx} (p : Pilot)
    (h : i.conn ≠ some e.1) :
    readOne i i.readSet p e = readOne i i.ready p e := by
  unfold readOne PoolIn.readSet
  simp [h]

/-- The client just accepted is not read. -/
private theorem readOne_accepted {i : PoolIn} {e : Ip × Clictx} (p : Pilot)
    (h : i.conn = some e.1) : readOne i i.readSet p e = (p, e) := by
  unfold readOne PoolIn.readSet
  simp [h]

/-- A client after the accepting and the reading part is the one just accepted,
or was there before and went through its own turn of the reading loop. -/
theorem served_cases {s : TcpSrv} {i : PoolIn} {e' : Ip × Clictx}
    (h : e' ∈ (s.served i).clis.entries) :
    (i.conn = some e'.1 ∧ e'.2 = Clictx.accepted s.clis.size) ∨
    ∃ e ∈ s.clis.entries, i.conn ≠ some e.1 ∧
      ∃ q, e' = (readOne i i.ready q e).2 := by
  have hloop := readLoop_clients i i.readSet
    (s.markDirty.acceptIf i.conn).clis.entries
    (s.markDirty.acceptIf i.conn).pilot
  obtain ⟨e, he, q, rfl⟩ := exists_left_of_forall₂ hloop h
  rcases (mem_acceptIf s.markDirty i.conn e).mp he with
    ⟨hconn, hacc⟩ | ⟨hconn, hmem⟩
  · rw [readOne_accepted q hconn]
    exact Or.inl ⟨hconn, hacc⟩
  · rw [readOne_readSet q hconn]
    exact Or.inr ⟨e, hmem, hconn, q, rfl⟩

/-- A client that is not replaced goes through its turn of the reading loop. -/
theorem exists_served {s : TcpSrv} {i : PoolIn} {e : Ip × Clictx}
    (h : e ∈ s.clis.entries) (hconn : i.conn ≠ some e.1) :
    ∃ q, (readOne i i.ready q e).2 ∈ (s.served i).clis.entries := by
  have hloop := readLoop_clients i i.readSet
    (s.markDirty.acceptIf i.conn).clis.entries
    (s.markDirty.acceptIf i.conn).pilot
  have hmem := (mem_acceptIf s.markDirty i.conn e).mpr (Or.inr ⟨hconn, h⟩)
  obtain ⟨e', he', q, rfl⟩ := exists_right_of_forall₂ hloop hmem
  rw [readOne_readSet q hconn] at he'
  exact ⟨q, he'⟩

theorem accepted_served {s : TcpSrv} {i : PoolIn} {ip : Ip}
    (hconn : i.conn = some ip) :
    (ip, Clictx.accepted s.clis.size) ∈ (s.served i).clis.entries := by
  have hloop := readLoop_clients i i.readSet
    (s.markDirty.acceptIf i.conn).clis.entries
    (s.markDirty.acceptIf i.conn).pilot
  have hmem := (mem_acceptIf s.markDirty i.conn
    (ip, Clictx.accepted s.clis.size)).mpr (Or.inl ⟨hconn, rfl⟩)
  obtain ⟨e', he', q, rfl⟩ := exists_right_of_forall₂ hloop hmem
  rw [readOne_accepted q hconn] at he'
  exact he'

/-- A client that a `pool` call neither replaces nor finds gone. -/
def PoolIn.Stays (i : PoolIn) (e : Ip × Clictx) : Prop :=
  i.conn ≠ some e.1 ∧ e.2.isopen = true ∧
    (e.1 ∈ i.ready → delivered (i.recv e.1) ≠ [])

instance (i : PoolIn) (e : Ip × Clictx) : Decidable (i.Stays e) :=
  inferInstanceAs (Decidable (_ ∧ _))

/-- The addresses that are still connected when `_clean` runs. -/
def TcpSrv.survivors (s : TcpSrv) (i : PoolIn) : List Ip :=
  (s.clis.entries.filter fun e => decide (i.Stays e)).map Prod.fst ++
    i.conn.toList

theorem mem_survivors (s : TcpSrv) (i : PoolIn) (a : Ip) :
    a ∈ s.survivors i ↔
      (∃ e ∈ s.clis.entries, i.Stays e ∧ e.1 = a) ∨ i.conn = some a := by
  simp [TcpSrv.survivors, and_assoc]

/-- `_clean` leaves the clients that are still connected. -/
theorem mem_clean_keys (s : TcpSrv) (i : PoolIn) (a : Ip) :
    a ∈ (s.served i).clean.clis.keys ↔ a ∈ s.survivors i := by
  have hkeys : (s.served i).clean.clis.keys =
      ((s.served i).clis.entries.filter fun e => e.2.isopen).map Prod.fst := by
    unfold KeyMap.keys
    rw [clean_entries, numbered_keys]
  rw [hkeys, List.mem_map, mem_survivors]
  constructor
  · rintro ⟨e', he', rfl⟩
    obtain ⟨hmem, hopen⟩ := List.mem_filter.mp he'
    rcases served_cases hmem with ⟨hconn, _⟩ | ⟨e, he, hconn, q, rfl⟩
    · exact Or.inr hconn
    · have hstays := (readOne_isopen i i.ready q e).mp hopen
      exact Or.inl ⟨e, he, ⟨hconn, hstays⟩, (readOne_key i i.ready q e).symm⟩
  · rintro (⟨e, he, hstays, rfl⟩ | hconn)
    · obtain ⟨q, hq⟩ := exists_served he hstays.1
      have hopen := (readOne_isopen i i.ready q e).mpr hstays.2
      exact ⟨_, List.mem_filter.mpr ⟨hq, hopen⟩, readOne_key i i.ready q e⟩
    · exact ⟨_, List.mem_filter.mpr ⟨accepted_served hconn, rfl⟩, rfl⟩

/-- A client that is open after a `pool` call was just accepted, or was there
and open before. -/
theorem pool_open {s : TcpSrv} {i : PoolIn} {ip : Ip} {k' : Clictx}
    (hmem : (ip, k') ∈ (s.pool i).1.clis.entries) (hopen : k'.isopen = true) :
    i.Accepts ip ∨ (¬ i.Accepts ip ∧
      ∃ k, (ip, k) ∈ s.clis.entries ∧ k.isopen = true) := by
  have hserved : i.selectErr = none →
      ∀ e ∈ (s.served i).clis.entries, e.2.isopen = true →
        i.Accepts e.1 ∨ (¬ i.Accepts e.1 ∧
          ∃ k, (e.1, k) ∈ s.clis.entries ∧ k.isopen = true) := by
    intro herr e he heopen
    rcases served_cases he with ⟨hconn, _⟩ | ⟨e₀, he₀, hconn, q, rfl⟩
    · exact Or.inl ⟨herr, hconn⟩
    · apply Or.inr
      rw [readOne_key]
      exact ⟨fun hacc => hconn hacc.2, e₀.2, he₀,
        ((readOne_isopen i i.ready q e₀).mp heopen).1⟩
  rcases pool_cases s i with ⟨herr, heq⟩ | ⟨hclean, heq⟩ | ⟨herr, _, heq⟩
  · rw [heq] at hmem
    exact Or.inr ⟨fun hacc => herr hacc.1, k', hmem, hopen⟩
  · rw [heq, clean_entries] at hmem
    obtain ⟨e, he, n, hk⟩ := mem_numbered.2 _ hmem
    obtain ⟨hin, heopen⟩ := List.mem_filter.mp he
    rw [(Prod.mk.inj hk).1]
    exact hserved hclean.1 e hin heopen
  · rw [heq] at hmem
    exact hserved herr _ hmem hopen

/-- When no client has anything to say, `pool` leaves the pilot fields or clears
them. -/
theorem pool_silent (s : TcpSrv) (i : PoolIn)
    (hnone : ∀ ip, delivered (i.recv ip) = []) :
    (s.pool i).1.pilot = s.pilot ∨ (s.pool i).1.pilot = Pilot.zero := by
  have hloop : ∀ (rd : List Ip) (es : List (Ip × Clictx)) (p : Pilot),
      (readLoop i rd p es).1 = p := by
    intro rd es
    induction es with
    | nil => intro p; rfl
    | cons e es ih =>
        intro p
        have hone : (readOne i rd p e).1 = p := by
          unfold readOne
          split
          · have hrt : (receiveall sizeofBufHdr (e.2.sock (i.recv e.1))).1 =
                [] := by
              apply receiveall_eq_nil
              unfold Clictx.sock
              split
              · exact hnone e.1
              · rfl
            unfold Clictx.rec'
            simp [hrt]
          · rfl
        show (readLoop i rd (readOne i rd p e).1 es).1 = p
        rw [ih, hone]
  have hserved : (s.served i).pilot = s.pilot ∨
      (s.served i).pilot = Pilot.zero := by
    show (readLoop i i.readSet _ _).1 = _ ∨ (readLoop i i.readSet _ _).1 = _
    rw [hloop]
    cases i.conn with
    | none => exact Or.inl rfl
    | some ip => exact Or.inr rfl
  rcases pool_cases s i with ⟨_, heq⟩ | ⟨_, heq⟩ | ⟨_, _, heq⟩
  · rw [heq]
    exact Or.inl rfl
  · rw [heq]
    exact Or.inr rfl
  · rw [heq]
    exact hserved

end RoomSpeaker
