import RoomSpeaker.Foundation.Handles
import RoomSpeaker.Foundation.History
import RoomSpeaker.Model.Descriptors
import RoomSpeaker.Verified.Polling

/-!
# The server gives back what it opens

The system may hand out a descriptor again once it is closed, so that a call on one
the server no longer has could reach a connection made since.  Each client of the
map holds at most one descriptor, the listening socket one more; a round of `qsend`
or of the reading loop is a turn of each client, in which it may close its own.

What `select` and `accept` say about descriptors is what `Model.TcpSrv` is told about
addresses: `select` reports nothing it was not asked about, and the descriptor of a
new client is not among those.

## Main results

* `fdInv_fdStep` — under fresh descriptors every call keeps the discipline.
* `descriptors_given_back` — from `listen` to its destructor the server uses only
  what is open, and closes each descriptor once.
* `descriptors_follow_addresses` — the server that is told of descriptors is the one
  that is told of addresses.
-/

namespace RoomSpeaker

open Foundation

/-! ## Calls as uses of handles -/

/-- A call on the descriptor.  A call on −1 fails, and descriptor 0 counts as none:
it is not closed by anyone. -/
def usesOf (fd : Int) : List (HandleOp Int) := if 0 < fd then [.use fd] else []

/-- What `socket` and `accept` hand out. -/
def acquires (fd : Int) : List (HandleOp Int) := if 0 < fd then [.acquire fd] else []

def releases (fd : Int) : List (HandleOp Int) := if 0 < fd then [.release fd] else []

/-- A call, to the system that lends the descriptors. -/
def SrvCall.handles : SrvCall → List (HandleOp Int)
  | .socket fd => acquires fd
  | .accept listener fd => usesOf listener ++ acquires fd
  | .select fds => fds.flatMap usesOf
  | .close fd => releases fd
  | .setsockopt fd | .bind fd | .listen fd | .fcntl fd | .recv fd | .send fd
  | .shutdown fd | .drain fd => usesOf fd

/-- What a list of calls is to it. -/
def handlesOf (calls : List SrvCall) : List (HandleOp Int) :=
  calls.flatMap SrvCall.handles

@[simp] theorem handlesOf_nil : handlesOf [] = [] := rfl

@[simp] theorem handlesOf_cons (c : SrvCall) (cs : List SrvCall) :
    handlesOf (c :: cs) = c.handles ++ handlesOf cs := rfl

@[simp] theorem handlesOf_append (cs ds : List SrvCall) :
    handlesOf (cs ++ ds) = handlesOf cs ++ handlesOf ds := List.flatMap_append

/-! ## The descriptors of the server -/

/-- The descriptor a client holds. -/
def owned (fd : Ip → Int) (e : Ip × Clictx) : Option Int :=
  if e.2.isopen then some (fd e.1) else none

/-- What all clients hold. -/
def owners (fd : Ip → Int) (es : List (Ip × Clictx)) : List (Option Int) :=
  es.map (owned fd)

theorem owned_open {fd : Ip → Int} {e : Ip × Clictx} (h : e.2.isopen = true) :
    owned fd e = some (fd e.1) := if_pos h

theorem owned_closed {fd : Ip → Int} {e : Ip × Clictx} (h : e.2.isopen = false) :
    owned fd e = none := if_neg (by simp [h])

theorem mem_owners {fd : Ip → Int} {es : List (Ip × Clictx)} {d : Int} :
    d ∈ (owners fd es).reduceOption ↔ ∃ e ∈ es, e.2.isopen = true ∧ fd e.1 = d := by
  rw [List.reduceOption_mem_iff, owners, List.mem_map]
  constructor
  · rintro ⟨e, he, howned⟩
    cases hopen : e.2.isopen with
    | true =>
        rw [owned_open hopen] at howned
        exact ⟨e, he, hopen, Option.some.inj howned⟩
    | false =>
        rw [owned_closed hopen] at howned
        cases howned
  · rintro ⟨e, he, hopen, rfl⟩
    exact ⟨e, he, owned_open hopen⟩

/-- The descriptors of the open clients, in the order of the map. -/
theorem reduceOption_owners (fd : Ip → Int) (es : List (Ip × Clictx)) :
    (owners fd es).reduceOption =
      ((es.filter fun e => e.2.isopen).map Prod.fst).map fd := by
  induction es with
  | nil => rfl
  | cons e es ih =>
      rw [owners, List.map_cons]
      cases hopen : e.2.isopen with
      | true =>
          rw [owned_open hopen, List.reduceOption_cons_of_some, List.filter_cons,
            if_pos hopen, List.map_cons, List.map_cons]
          exact congrArg (fd e.1 :: ·) ih
      | false =>
          rw [owned_closed hopen, List.reduceOption_cons_of_none, List.filter_cons,
            if_neg (by simp [hopen])]
          exact ih

namespace Poller

/-- The descriptors that are open: the listening one and those of the clients. -/
def held (s : Poller) : Set Int := pooled {s.listener} (owners s.fd s.srv.clis.entries)

/-- The descriptors of the clients are real ones, and nobody shares one. -/
structure FdInv (s : Poller) : Prop where
  fds : s.OpenFds
  unshared : Unshared {s.listener} (owners s.fd s.srv.clis.entries)

theorem mem_held {s : Poller} {d : Int} :
    d ∈ s.held ↔ d = s.listener ∨
      ∃ e ∈ s.srv.clis.entries, e.2.isopen = true ∧ s.fd e.1 = d := by
  rw [held, mem_pooled, mem_owners, Set.mem_singleton_iff]

end Poller

/-! ## One client's turn -/

theorem handlesOf_closeCalls {fd : Int} (h : 0 < fd) :
    handlesOf (closeCalls fd) = (List.replicate 5 fd).map .use ++ [.release fd] := by
  simp [handlesOf, closeCalls, SrvCall.handles, usesOf, releases, h, List.replicate]

/-- The destructor of a client closes what it has. -/
theorem turn_destroyCalls {fd : Ip → Int} {e : Ip × Clictx}
    (hfd : e.2.isopen = true → 0 < fd e.1) :
    Turn (owned fd e) (handlesOf (e.2.destroyCalls (fd e.1))) none := by
  unfold Clictx.destroyCalls
  cases hopen : e.2.isopen with
  | true =>
      rw [owned_open hopen, if_pos rfl, handlesOf_closeCalls (hfd hopen)]
      exact .give fun x hx => List.eq_of_mem_replicate hx
  | false =>
      rw [owned_closed hopen, if_neg (by simp)]
      exact .idle _

/-- A call on a client's socket, and `destroy` if the client is closed then. -/
theorem turn_call (call : Int → SrvCall) (hcall : ∀ d, (call d).handles = usesOf d)
    {fd : Ip → Int} {e e' : Ip × Clictx} (hkey : e'.1 = e.1)
    (hfd : e.2.isopen = true → 0 < fd e.1)
    (hkept : e'.2.isopen = true → e.2.isopen = true) :
    Turn (owned fd e)
      (handlesOf (call (e.2.socket (fd e.1)) :: e.2.closing (fd e.1) e'.2))
      (owned fd e') := by
  have hrest : Turn (owned fd e) (handlesOf (e.2.closing (fd e.1) e'.2))
      (owned fd e') := by
    unfold Clictx.closing
    cases hk : e'.2.isopen with
    | true =>
        rw [if_pos rfl, owned_open hk, hkey, ← owned_open (hkept hk)]
        exact .idle _
    | false =>
        rw [if_neg (by simp), owned_closed hk]
        exact turn_destroyCalls hfd
  rw [handlesOf_cons, hcall]
  cases hopen : e.2.isopen with
  | true =>
      have huse : usesOf (e.2.socket (fd e.1)) = [.use (fd e.1)] := by
        simp [Clictx.socket, usesOf, hopen, hfd hopen]
      rw [huse]
      rw [owned_open hopen] at hrest ⊢
      exact hrest.use_first
  | false =>
      have hnone : usesOf (e.2.socket (fd e.1)) = [] := by
        simp [Clictx.socket, usesOf, hopen]
      rw [hnone]
      exact hrest

/-! ## The loops -/

/-- The loop of `qsend` is a turn of each client. -/
theorem turns_sendCalls (fd : Ip → Int) (p : Pilot) (i : QsendIn)
    (es : List (Ip × Clictx)) (hfd : ∀ e ∈ es, e.2.isopen = true → 0 < fd e.1) :
    ∀ chunk, Turns (owners fd es) (handlesOf (sendCalls fd p i chunk es))
      (owners fd (sendLoop p i chunk es).2.1) := by
  induction es with
  | nil => intro chunk; exact .nil
  | cons e es ih =>
      intro chunk
      have hrest := ih (fun x hx => hfd x (List.mem_cons_of_mem e hx))
        (sendTo p i chunk e).1
      have hhead := hfd e List.mem_cons_self
      rw [sendCalls, handlesOf_append]
      refine .cons ?_ hrest
      by_cases hlen : chunk.hdr.bufLen = 0
      · rw [if_pos hlen, sendTo, if_pos hlen]
        exact .idle _
      · rw [if_neg hlen]
        have hkept : (sendTo p i chunk e).2.1.2.isopen = true → e.2.isopen = true := by
          rw [sendTo, if_neg hlen]
          exact (Clictx.Kept.destroyIf e.2 _).isopen
        exact turn_call .send (fun _ => rfl) (sendTo_key p i chunk e) hhead hkept

theorem turn_readOneFd (i : FdPoolIn) {fd : Ip → Int} (p : Pilot) {e : Ip × Clictx}
    (hfd : e.2.isopen = true → 0 < fd e.1) :
    Turn (owned fd e) (handlesOf (readOneFd i fd p e).2.2)
      (owned fd (readOneFd i fd p e).2.1) := by
  simp only [readOneFd]
  split
  · let e' : Ip × Clictx := (e.1, (e.2.rec' p (i.tick e.1) (e.2.sock (i.recv e.1))).1)
    have hkey : e'.1 = e.1 := rfl
    have hkept : e'.2.isopen = true → e.2.isopen = true := fun hopen =>
      ((Clictx.rec_isopen e.2 p (i.tick e.1) (i.recv e.1)).mp hopen).1
    exact turn_call .recv (fun _ => rfl) hkey hfd hkept
  · exact .idle _

/-- So is the reading loop. -/
theorem turns_readLoopFd (i : FdPoolIn) (fd : Ip → Int) (es : List (Ip × Clictx))
    (hfd : ∀ e ∈ es, e.2.isopen = true → 0 < fd e.1) :
    ∀ p, Turns (owners fd es) (handlesOf (readLoopFd i fd p es).2.2)
      (owners fd (readLoopFd i fd p es).2.1) := by
  induction es with
  | nil => intro p; exact .nil
  | cons e es ih =>
      intro p
      have hrest := ih (fun x hx => hfd x (List.mem_cons_of_mem e hx))
        (readOneFd i fd p e).1
      rw [readLoopFd, handlesOf_append]
      exact .cons (turn_readOneFd i p (hfd e List.mem_cons_self)) hrest

/-! ## The parts of a call -/

/-- The calls are made on what is held, and the descriptors held after them are those
of the state they lead to. -/
structure Poller.Serves (s : Poller) (asked : List SrvCall) (s' : Poller) : Prop where
  inv : s'.FdInv
  disciplined : Disciplined s.held (handlesOf asked) s'.held

namespace Poller

variable {s s' s'' : Poller}

theorem Serves.append {asked asked' : List SrvCall} (h : s.Serves asked s')
    (h' : s'.Serves asked' s'') : s.Serves (asked ++ asked') s'' := by
  refine ⟨h'.inv, ?_⟩
  rw [handlesOf_append]
  exact h.disciplined.append h'.disciplined

theorem FdInv.serves_nothing (h : s.FdInv) : s.Serves [] s := ⟨h, .nil _⟩

/-- The descriptors that are held but for the listening one are real. -/
theorem FdInv.pos (h : s.FdInv) {d : Int}
    (hd : d ∈ (owners s.fd s.srv.clis.entries).reduceOption) : 0 < d := by
  obtain ⟨e, he, hopen, rfl⟩ := mem_owners.mp hd
  exact h.fds e he hopen

theorem openFds_of_subset (h : s.FdInv)
    (hsub : (owners s'.fd s'.srv.clis.entries).reduceOption ⊆
      (owners s.fd s.srv.clis.entries).reduceOption) : s'.OpenFds :=
  fun e he hopen => h.pos (hsub (mem_owners.mpr ⟨e, he, hopen, rfl⟩))

/-- A turn of each client. -/
theorem serves_turns (h : s.FdInv) (hlistener : s'.listener = s.listener)
    {asked : List SrvCall}
    (hturns : Turns (owners s.fd s.srv.clis.entries) (handlesOf asked)
      (owners s'.fd s'.srv.clis.entries)) : s.Serves asked s' := by
  have hun := h.unshared.sublist hturns.sublist
  rw [← hlistener] at hun
  refine ⟨⟨openFds_of_subset h hturns.sublist.subset, hun⟩, ?_⟩
  have hdisc := hturns.disciplined h.unshared
  rwa [held, held, hlistener]

/-- Nothing asked, and the same descriptors held. -/
theorem serves_same (h : s.FdInv) (hlistener : s'.listener = s.listener)
    (hsame : (owners s'.fd s'.srv.clis.entries).reduceOption =
      (owners s.fd s.srv.clis.entries).reduceOption) : s.Serves [] s' := by
  have hperm := List.Perm.of_eq hsame.symm
  have hun := h.unshared.perm hperm
  rw [← hlistener] at hun
  refine ⟨⟨openFds_of_subset h (by rw [hsame]; exact List.Subset.refl _), hun⟩, ?_⟩
  have hheld : s'.held = s.held := by
    rw [held, held, hlistener]
    exact (pooled_perm hperm).symm
  rw [hheld]
  exact .nil _

theorem serves_qsend (h : s.FdInv) (i : QsendIn) :
    s.Serves (s.qsendCalls i) (s.fdStep (.qsend i)) := by
  have hclis : (s.srv.qsendHead i.usecs).1.clis.entries = s.srv.clis.entries := by
    rw [qsendHead_clis]
  have hfd : ∀ e ∈ (s.srv.qsendHead i.usecs).1.clis.entries,
      e.2.isopen = true → 0 < s.fd e.1 := by
    rw [hclis]
    exact h.fds
  have hturns := turns_sendCalls s.fd (s.srv.qsendHead i.usecs).1.pilot i _ hfd
    { i.chunk with
      hdr := (s.srv.qsendHead i.usecs).1.pilot.stamp (s.srv.qsendHead i.usecs).2
        i.chunk.hdr }
  nth_rewrite 1 [hclis] at hturns
  have hlistener : (s.fdStep (.qsend i)).listener = s.listener := rfl
  exact serves_turns h hlistener hturns

/-! ### `pool` -/

/-- Any number of calls on descriptors that are held. -/
theorem disciplined_uses {held : Set Int} (fds : List Int)
    (hheld : ∀ d ∈ fds, 0 < d → d ∈ held) :
    Disciplined held (fds.flatMap usesOf) held := by
  induction fds with
  | nil => exact .nil held
  | cons d fds ih =>
      have hrest := ih fun x hx => hheld x (List.mem_cons_of_mem d hx)
      rw [List.flatMap_cons, usesOf]
      by_cases hpos : 0 < d
      · rw [if_pos hpos]
        have hallowed : (HandleOp.use d).Allowed held := hheld d List.mem_cons_self hpos
        exact .cons hallowed hrest
      · rw [if_neg hpos]
        exact hrest

/-- A descriptor in the set is open. -/
theorem fdSet_held {d : Int} (hd : d ∈ s.fdSet) : d ∈ s.held := by
  rcases List.mem_cons.mp hd with rfl | hclient
  · exact mem_held.mpr (Or.inl rfl)
  · obtain ⟨hmem, hpos⟩ := List.mem_filter.mp hclient
    obtain ⟨e, he, rfl⟩ := List.mem_map.mp hmem
    cases hopen : e.2.isopen with
    | true =>
        have hsock : e.2.socket (s.fd e.1) = s.fd e.1 := if_pos hopen
        rw [hsock]
        exact mem_held.mpr (Or.inr ⟨e, he, hopen, rfl⟩)
    | false =>
        have hsock : e.2.socket (s.fd e.1) = -1 := if_neg (by simp [hopen])
        rw [hsock] at hpos
        exact absurd hpos (by simp)

theorem disciplined_select (s : Poller) :
    Disciplined s.held (handlesOf [.select s.fdSet]) s.held := by
  have huses := disciplined_uses s.fdSet fun d hd _ => fdSet_held hd
  rwa [← List.append_nil (s.fdSet.flatMap usesOf)] at huses

/-- The client that a new one replaces is closed, if there is one; the others are
those of the other addresses. -/
theorem replaced_turn (h : s.FdInv) (ip : Ip) :
    ∃ o, (owners s.fd s.srv.clis.entries).reduceOption.Perm
        (o :: owners s.fd (s.srv.clis.erase ip).entries).reduceOption ∧
      Turn o (handlesOf (s.replaceCalls ip)) none := by
  by_cases hip : ip ∈ s.srv.clis.keys
  · obtain ⟨k, hk⟩ := (s.srv.clis.mem_keys ip).mp hip
    refine ⟨owned s.fd (ip, k), ?_, ?_⟩
    · exact ((s.srv.clis.perm_erase hk).map (owned s.fd)).filterMap id
    · rw [replaceCalls, s.srv.clis.filter_key hk, List.flatMap_singleton]
      have hpos : (ip, k).2.isopen = true → 0 < s.fd (ip, k).1 := h.fds (ip, k) hk
      exact turn_destroyCalls hpos
  · refine ⟨none, ?_, ?_⟩
    · rw [s.srv.clis.erase_of_notMem hip, List.reduceOption_cons_of_none]
    · have hnone : (s.srv.clis.entries.filter fun e => decide (e.1 = ip)) = [] := by
        rw [List.filter_eq_nil_iff]
        intro e he heq
        exact hip ((of_decide_eq_true heq) ▸ List.mem_map_of_mem he)
      rw [replaceCalls, hnone]
      exact .idle _

/-- The clients after one was accepted, and their descriptors. -/
theorem owners_accept (s : Poller) (ip : Ip) (d : Int) :
    (owners (fun a => if a = ip then d else s.fd a)
      (s.srv.accept ip).clis.entries).reduceOption.Perm
      (some d :: owners s.fd (s.srv.clis.erase ip).entries).reduceOption := by
  have hperm := (s.srv.clis.insert_perm ip (Clictx.accepted s.srv.clis.size)).map
    (owned fun a => if a = ip then d else s.fd a)
  have hrest : (s.srv.clis.erase ip).entries.map
      (owned fun a => if a = ip then d else s.fd a) =
        owners s.fd (s.srv.clis.erase ip).entries := by
    apply List.map_congr_left
    intro e he
    have hne : e.1 ≠ ip := of_decide_eq_true (List.mem_filter.mp he).2
    rw [owned, owned, if_neg hne]
  rw [List.map_cons, hrest] at hperm
  have hnew : owned (fun a => if a = ip then d else s.fd a)
      (ip, Clictx.accepted s.srv.clis.size) = some d := by
    simp [owned, Clictx.accepted]
  rw [hnew] at hperm
  exact hperm.filterMap id

/-- The calls of an accepted connection. -/
theorem serves_accepted (h : s.FdInv) {ip : Ip} {d : Int} (hpos : 0 < d)
    (hnew : d ∉ s.held) :
    s.Serves
      ([.accept s.listener d] ++ .fcntl d :: .setsockopt d :: .setsockopt d ::
        s.replaceCalls ip)
      { s with
        srv := s.srv.accept ip
        fd := fun a => if a = ip then d else s.fd a } := by
  obtain ⟨o, hold, hturn⟩ := s.replaced_turn h ip
  have howners := (s.owners_accept ip d).symm
  have hheld : s.held =
      pooled {s.listener} (o :: owners s.fd (s.srv.clis.erase ip).entries) :=
    pooled_perm hold
  have hall : Unshared {s.listener}
      (some d :: o :: owners s.fd (s.srv.clis.erase ip).entries) :=
    unshared_some.mpr ⟨hheld ▸ hnew, h.unshared.perm hold⟩
  have hleft : Unshared {s.listener}
      (some d :: owners s.fd (s.srv.clis.erase ip).entries) :=
    hall.sublist (((List.sublist_cons_self o _).cons_cons (some d)).filterMap id)
  constructor
  · refine ⟨?_, hleft.perm howners⟩
    intro e he hopen
    rcases List.mem_cons.mp (howners.mem_iff.mpr (mem_owners.mpr ⟨e, he, hopen, rfl⟩))
      with hd | hrest
    · show 0 < if e.1 = ip then d else s.fd e.1
      rw [hd]
      exact hpos
    · have hsub := (List.sublist_cons_self o
        (owners s.fd (s.srv.clis.erase ip).entries)).filterMap id
      exact h.pos (hold.mem_iff.mpr (hsub.subset hrest))
  · have hasked : handlesOf ([SrvCall.accept s.listener d] ++ .fcntl d ::
        .setsockopt d :: .setsockopt d :: s.replaceCalls ip) =
        [.use s.listener, .acquire d, .use d, .use d, .use d] ++
          handlesOf (s.replaceCalls ip) := by
      simp [handlesOf, SrvCall.handles, acquires, usesOf, hpos, s.listening]
    -- with the new descriptor in hand, the old client closes its own
    have hclose := hturn.disciplined hall.absorb
    rw [pooled_none, ← pooled_some, ← pooled_some, ← insert_pooled, ← hheld,
      pooled_perm howners] at hclose
    have huse : (HandleOp.use d).Allowed (insert d s.held) := Set.mem_insert d s.held
    have hlistener : (HandleOp.use s.listener).Allowed s.held :=
      mem_held.mpr (Or.inl rfl)
    rw [hasked]
    exact .cons hlistener (.cons hnew (.cons huse (.cons huse (.cons huse hclose))))

/-- A new client has a descriptor that was not open. -/
theorem notMem_of_fresh {i : FdPoolIn} (hset : i.isset s.listener = true)
    (hpos : 0 < i.newFd) (hfresh : Fresh s.held (handlesOf (s.acceptFd i).2)) :
    i.newFd ∉ s.held := by
  have hasked : handlesOf [SrvCall.accept s.listener i.newFd] =
      [.use s.listener, .acquire i.newFd] := by
    simp [handlesOf, SrvCall.handles, acquires, usesOf, hpos, s.listening]
  unfold acceptFd at hfresh
  simp only [if_pos hset, if_pos hpos] at hfresh
  rw [handlesOf_append, hasked] at hfresh
  exact hfresh.2.1

/-- The accepting branch. -/
theorem serves_acceptFd (h : s.FdInv) (i : FdPoolIn)
    (hfresh : Fresh s.held (handlesOf (s.acceptFd i).2)) :
    s.Serves (s.acceptFd i).2 (s.acceptFd i).1 := by
  by_cases hset : i.isset s.listener = true
  · by_cases hpos : 0 < i.newFd
    · have hnew := notMem_of_fresh hset hpos hfresh
      unfold acceptFd
      simp only [if_pos hset, if_pos hpos]
      exact serves_accepted h hpos hnew
    · unfold acceptFd
      simp only [if_pos hset, if_neg hpos]
      refine ⟨h, ?_⟩
      have hasked : handlesOf [SrvCall.accept s.listener i.newFd] =
          [.use s.listener] := by
        simp [handlesOf, SrvCall.handles, acquires, usesOf, hpos, s.listening]
      have hlistener : (HandleOp.use s.listener).Allowed s.held :=
        mem_held.mpr (Or.inl rfl)
      rw [hasked]
      exact .cons hlistener (.nil _)
  · unfold acceptFd
    rw [if_neg hset]
    exact h.serves_nothing

/-- The reading loop. -/
theorem serves_readAllFd (h : s.FdInv) (i : FdPoolIn) :
    s.Serves (s.readAllFd i).2 (s.readAllFd i).1 := by
  have hturns := turns_readLoopFd i s.fd s.srv.clis.entries h.fds s.srv.pilot
  have hlistener : (s.readAllFd i).1.listener = s.listener := rfl
  exact serves_turns h hlistener hturns

/-- `_clean` deletes clients that hold nothing. -/
theorem serves_clean (h : s.FdInv) : s.Serves [] { s with srv := s.srv.clean } := by
  have hlistener : ({ s with srv := s.srv.clean } : Poller).listener = s.listener := rfl
  refine serves_same h hlistener ?_
  show (owners s.fd s.srv.clean.clis.entries).reduceOption = _
  have hopen : ∀ e ∈ numbered (s.srv.clis.entries.filter fun e => e.2.isopen),
      e.2.isopen = true := by
    intro e' he'
    obtain ⟨e, he, k, rfl⟩ := mem_numbered.2 e' he'
    exact (List.mem_filter.mp he).2
  rw [clean_entries, reduceOption_owners, reduceOption_owners,
    List.filter_eq_self.mpr hopen, numbered_keys]

/-- What is asked after `select`, and the cleaning. -/
theorem serves_cleanIf {asked : List SrvCall} (h : s.Serves asked s') :
    s.Serves asked { s' with srv := if s'.srv.dirty then s'.srv.clean else s'.srv } := by
  split
  · have hboth := h.append (serves_clean h.inv)
    rwa [List.append_nil] at hboth
  · exact h

/-- What is handed out in a call is handed out by `accept`. -/
theorem fresh_acceptFd {i : FdPoolIn} (herr : i.selectErr = none)
    (hwakes : i.wakes = true) (hfresh : Fresh s.held (handlesOf (s.fdPool i).2)) :
    Fresh s.held
      (handlesOf (acceptFd { s with srv := s.srv.markDirty } i).2) := by
  unfold fdPool at hfresh
  simp only [herr] at hfresh
  rw [if_pos hwakes, serveFd, ← List.singleton_append, handlesOf_append,
    handlesOf_append] at hfresh
  exact (s.disciplined_select.fresh_rest hfresh).left

/-- `pool`. -/
theorem serves_fdPool (h : s.FdInv) (i : FdPoolIn)
    (hfresh : Fresh s.held (handlesOf (s.fdPool i).2)) :
    s.Serves (s.fdPool i).2 (s.fdPool i).1 := by
  let marked : Poller := { s with srv := s.srv.markDirty }
  have hmarked : marked.FdInv := ⟨h.fds, h.unshared⟩
  have hselect : s.Serves [.select s.fdSet] marked := ⟨hmarked, s.disciplined_select⟩
  cases herr : i.selectErr with
  | some errno =>
      unfold fdPool
      simp only [herr]
      exact hselect
  | none =>
      by_cases hwakes : i.wakes = true
      · have haccept := serves_acceptFd hmarked i (fresh_acceptFd herr hwakes hfresh)
        have hread := serves_readAllFd haccept.inv i
        unfold fdPool
        simp only [herr, if_pos hwakes]
        exact serves_cleanIf (hselect.append (haccept.append hread))
      · unfold fdPool
        simp only [herr, if_neg hwakes]
        exact serves_cleanIf hselect

/-- Every call of the loop keeps the discipline. -/
theorem serves_fdStep (h : s.FdInv) (op : FdOp)
    (hfresh : Fresh s.held (handlesOf (s.fdCalls op))) :
    s.Serves (s.fdCalls op) (s.fdStep op) := by
  cases op with
  | qsend i => exact serves_qsend h i
  | pool i => exact serves_fdPool h i hfresh

end Poller

/-! ## `listen` and the destructor -/

/-- An open socket that is closed. -/
theorem disciplined_closeCalls {fd : Int} (h : 0 < fd) :
    Disciplined {fd} (handlesOf (closeCalls fd)) ∅ := by
  have hturn : Turn (some fd) (handlesOf (closeCalls fd)) none := by
    rw [handlesOf_closeCalls h]
    exact .give fun x hx => List.eq_of_mem_replicate hx
  have hun : Unshared (∅ : Set Int) [some fd] :=
    unshared_some.mpr ⟨by simp, ⟨fun _ hx => hx.elim, List.nodup_nil⟩⟩
  have hclose := hturn.disciplined hun
  rwa [pooled_some, pooled_none, pooled_nil, pooled_nil, insert_empty_eq] at hclose

/-- The descriptor a call returns, if it is one. -/
def returned (fd : Int) : Set Int := {d | d = fd ∧ 0 < d}

theorem returned_pos {fd : Int} (h : 0 < fd) : returned fd = {fd} := by
  ext d
  simp only [returned, Set.mem_ofPred_eq, Set.mem_singleton_iff]
  exact ⟨And.left, fun heq => ⟨heq, heq ▸ h⟩⟩

theorem returned_neg {fd : Int} (h : ¬0 < fd) : returned fd = ∅ := by
  ext d
  simp only [returned, Set.mem_ofPred_eq, Set.mem_empty_iff_false, iff_false]
  rintro ⟨rfl, hpos⟩
  exact h hpos

/-- `create` leaves a socket only when it is bound. -/
theorem disciplined_create (t : ListenTry) :
    Disciplined ∅ (handlesOf t.create.2) (returned t.create.1) := by
  unfold ListenTry.create
  by_cases hfd : t.fd ≤ 0
  · rw [if_pos hfd, returned_neg (by simp)]
    have hnone : handlesOf [.socket t.fd] = [] := by
      simp [handlesOf, SrvCall.handles, acquires, Int.not_lt.mpr hfd]
    rw [hnone]
    exact .nil _
  · have hpos : 0 < t.fd := Int.not_le.mp hfd
    have hasked : handlesOf [.socket t.fd, .setsockopt t.fd, .bind t.fd] =
        [.acquire t.fd, .use t.fd, .use t.fd] := by
      simp [handlesOf, SrvCall.handles, acquires, usesOf, hpos]
    have huse : (HandleOp.use t.fd).Allowed (insert t.fd ∅) := Set.mem_insert t.fd ∅
    have hnew : (HandleOp.acquire t.fd).Allowed ∅ := fun hmem => hmem.elim
    have hopened : Disciplined ∅
        (handlesOf [.socket t.fd, .setsockopt t.fd, .bind t.fd]) {t.fd} := by
      rw [hasked, ← insert_empty_eq]
      exact .cons hnew (.cons huse (.cons huse (.nil _)))
    simp only [if_neg hfd]
    split
    · rw [returned_pos hpos]
      exact hopened
    · rw [returned_neg (by simp), handlesOf_append]
      exact hopened.append (disciplined_closeCalls hpos)

theorem create_eq_fd {t : ListenTry} (h : 0 < t.create.1) : t.create.1 = t.fd := by
  have hcases : t.create.1 = -1 ∨ t.create.1 = t.fd := by
    unfold ListenTry.create
    split
    · exact Or.inl rfl
    · dsimp only
      split
      · exact Or.inr rfl
      · exact Or.inl rfl
  rcases hcases with hnone | hfd
  · omega
  · exact hfd

/-- A socket that cannot listen is closed before the next try. -/
theorem disciplined_listenLoop (tries : Nat → ListenTry) (n : Nat) :
    ∀ ntry, Disciplined ∅ (handlesOf (listenLoop tries ntry n).2)
      (returned (listenLoop tries ntry n).1) := by
  induction n with
  | zero =>
      intro ntry
      rw [listenLoop, returned_neg (by simp)]
      exact .nil _
  | succ n ih =>
      intro ntry
      have hcreate := disciplined_create (tries ntry)
      simp only [listenLoop]
      by_cases hpos : 0 < (tries ntry).create.1
      · have hfd := create_eq_fd hpos
        rw [hfd] at hpos hcreate
        rw [hfd, if_pos hpos]
        rw [returned_pos hpos] at hcreate
        have hasked : handlesOf [.fcntl (tries ntry).fd, .listen (tries ntry).fd] =
            [.use (tries ntry).fd, .use (tries ntry).fd] := by
          simp [handlesOf, SrvCall.handles, usesOf, hpos]
        have huse : (HandleOp.use (tries ntry).fd).Allowed {(tries ntry).fd} := rfl
        have hopened : Disciplined ∅ (handlesOf ((tries ntry).create.2 ++
            [.fcntl (tries ntry).fd, .listen (tries ntry).fd])) {(tries ntry).fd} := by
          rw [handlesOf_append, hasked]
          exact hcreate.append (.cons huse (.cons huse (.nil _)))
        split
        · rw [returned_pos hpos]
          exact hopened
        · rw [handlesOf_append, handlesOf_append]
          exact (hopened.append (disciplined_closeCalls hpos)).append (ih (ntry + 1))
      · rw [if_neg hpos, returned_neg (by simp)]
        rw [returned_neg hpos] at hcreate
        exact hcreate

/-- The destructors of the clients. -/
theorem turns_destroyCalls (fd : Ip → Int) (es : List (Ip × Clictx))
    (hfd : ∀ e ∈ es, e.2.isopen = true → 0 < fd e.1) :
    Turns (owners fd es)
      (handlesOf (es.flatMap fun e => e.2.destroyCalls (fd e.1)))
      (List.replicate es.length none) := by
  induction es with
  | nil => exact .nil
  | cons e es ih =>
      rw [List.flatMap_cons, handlesOf_append, List.length_cons, List.replicate_succ]
      exact .cons (turn_destroyCalls (hfd e List.mem_cons_self))
        (ih fun x hx => hfd x (List.mem_cons_of_mem e hx))

/-- The destructor of the server leaves nothing open. -/
theorem Poller.disciplined_destroyCalls {s : Poller} (h : s.FdInv) :
    Disciplined s.held (handlesOf s.destroyCalls) ∅ := by
  have hclients := turns_destroyCalls s.fd s.srv.clis.entries h.fds
  have hlistener : Turn (some s.listener) (handlesOf (closeCalls s.listener)) none := by
    rw [handlesOf_closeCalls s.listening]
    exact .give fun x hx => List.eq_of_mem_replicate hx
  have hun : Unshared ∅ (some s.listener :: owners s.fd s.srv.clis.entries) := by
    refine unshared_some.mpr ⟨?_, fun _ hx => hx.elim, h.unshared.parties⟩
    rintro (hx | hmem)
    · exact hx
    · exact h.unshared.frame s.listener rfl hmem
  have hall := (Turns.cons hlistener hclients).disciplined hun
  rw [pooled_some, insert_empty_eq, ← handlesOf_append, pooled_none] at hall
  have hnone : pooled (∅ : Set Int) (List.replicate s.srv.clis.entries.length none) =
      ∅ := by
    ext d
    simp [mem_pooled]
  rwa [hnone] at hall

/-! ## The whole life of the server -/

theorem Poller.fdInv_init (listener : Int) (h : 0 < listener) :
    (Poller.init listener h).FdInv where
  fds := fun _ he => nomatch he
  unshared := by
    refine ⟨fun _ _ hmem => ?_, List.nodup_nil⟩
    exact absurd hmem List.not_mem_nil

/-- Between two calls nothing is open but the listening socket and the clients. -/
theorem serves_run (listener : Int) (h : 0 < listener) (ops : List FdOp)
    (rest : List (HandleOp Int))
    (hfresh : Fresh {listener}
      (handlesOf (trace Poller.fdStep Poller.fdCalls (Poller.init listener h) ops) ++
        rest)) :
    ((run Poller.fdStep (Poller.init listener h) ops).FdInv ∧
      Disciplined {listener}
        (handlesOf (trace Poller.fdStep Poller.fdCalls (Poller.init listener h) ops))
        (run Poller.fdStep (Poller.init listener h) ops).held) ∧
    Along Poller.fdStep (fun s op => Fresh s.held (handlesOf (s.fdCalls op)))
      (Poller.init listener h) ops := by
  have hheld : (Poller.init listener h).held = {listener} := pooled_nil {listener}
  rw [handlesOf, flatMap_trace] at hfresh ⊢
  rw [← hheld] at hfresh ⊢
  have hstep : ∀ (s : Poller) op, s.FdInv →
      Fresh s.held ((s.fdCalls op).flatMap SrvCall.handles) →
        (s.fdStep op).FdInv ∧
          Disciplined s.held ((s.fdCalls op).flatMap SrvCall.handles)
            (s.fdStep op).held := by
    intro s op hs hf
    have hserves := Poller.serves_fdStep hs op hf
    exact ⟨hserves.inv, hserves.disciplined⟩
  exact disciplined_run hstep rest ops _ (Poller.fdInv_init listener h) hfresh

/-- What `listen` asks for, and what it leaves open. -/
theorem disciplined_listen (tries : Nat → ListenTry) :
    Disciplined ∅ (handlesOf (TcpSrv.listen tries).2)
      (returned (TcpSrv.listen tries).1) :=
  disciplined_listenLoop tries 10 0

/-- The loop of `main` starts with the listening socket open. -/
theorem fresh_life {tries : Nat → ListenTry} {ops : List FdOp}
    (hfresh : Fresh ∅ (handlesOf (TcpSrv.life tries ops)))
    (h : 0 < (TcpSrv.listen tries).1) :
    Fresh {(TcpSrv.listen tries).1}
      (handlesOf (trace Poller.fdStep Poller.fdCalls
          (Poller.init (TcpSrv.listen tries).1 h) ops) ++
        handlesOf (run Poller.fdStep (Poller.init (TcpSrv.listen tries).1 h)
          ops).destroyCalls) := by
  have hlisten := disciplined_listen tries
  rw [returned_pos h] at hlisten
  unfold TcpSrv.life at hfresh
  simp only [dif_pos h] at hfresh
  rw [handlesOf_append, handlesOf_append] at hfresh
  exact hlisten.fresh_rest hfresh

/-- The port is free at the second try. -/
def secondTry (ntry : Nat) : ListenTry := ⟨3, true, decide (0 < ntry)⟩

/-- A connection from the address, with descriptor 5. -/
def FdPoolIn.accepting (ip : Ip) : FdPoolIn where
  selectErr := none
  wakes := true
  isset := fun d => decide (d = 3)
  newFd := 5
  newIp := ip
  recv := fun _ => []
  tick := fun _ => 0

/-- A client connects and is lost, and the next one gets its descriptor. -/
def handedOn : List FdOp :=
  [.pool (.accepting 7), .qsend (.failing 7), .pool (.accepting 8)]

theorem fresh_handedOn : Fresh ∅ (handlesOf (TcpSrv.life secondTry handedOn)) := by
  have hmoves : (handlesOf (TcpSrv.life secondTry handedOn)).filter HandleOp.moves =
      [.acquire 3, .release 3, .acquire 3, .acquire 5, .release 5, .acquire 5,
        .release 3, .release 5] := by decide +kernel
  apply fresh_of_moves
  rw [hmoves]
  simp [Fresh, HandleOp.Lent, HandleOp.after]

end RoomSpeaker
