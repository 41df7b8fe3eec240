import Mathlib.Data.List.Range
import RoomSpeaker.Foundation.Run
import RoomSpeaker.Verified.SrvSpec

/-!
# Who is the pilot

The pilot is the client with `_index` 0.  `accept` gives a new client the size of
the map as its index, and `_clean` numbers the clients in map order.

## Main results

* `count_step` — no call makes a second client with index 0.
* `onePilot_iff_replacedOnlyWhenCleaning` — the indices are `0, …, n-1` in every
  state of a run exactly when each `pool` that accepts from an address already
  in the map goes on to clean up.
* `labels_qsend`, `labels_served`, `labels_accept`, `indices_clean` — how each part of a
  call changes the clients' indices.
-/

namespace RoomSpeaker

open Foundation

/-! ## Labels -/

/-- The clients' addresses and indices, in map order. -/
def TcpSrv.labels (s : TcpSrv) : List (Ip × Nat) :=
  s.clis.entries.map fun e => (e.1, e.2.index)

/-- The indices of the clients in map order. -/
def TcpSrv.indices (s : TcpSrv) : List Nat := s.labels.map Prod.snd

@[simp] theorem length_indices (s : TcpSrv) :
    s.indices.length = s.clis.size := by
  simp [TcpSrv.indices, TcpSrv.labels, KeyMap.size]

theorem labels_keys (s : TcpSrv) : s.labels.map Prod.fst = s.clis.keys := by
  simp [TcpSrv.labels, KeyMap.keys]

/-- `qsend` renumbers nobody. -/
theorem labels_qsend (s : TcpSrv) (n : Nat) (i : QsendIn) :
    (s.qsend n i).srv.labels = s.labels := by
  apply map_eq_of_forall₂ (fun e => (e.1, e.2.index))
    (fun e => (e.1, e.2.index)) _ (qsend_clients s n i)
  rintro e e' ⟨hkey, hkept⟩
  rw [hkey, hkept.index]

/-- Nor does the reading loop. -/
theorem labels_readAll (s : TcpSrv) (i : PoolIn) (rd : List Ip) :
    (s.readAll i rd).labels = s.labels := by
  apply map_eq_of_forall₂ (fun e => (e.1, e.2.index))
    (fun e => (e.1, e.2.index)) _
    (readLoop_clients i rd s.clis.entries s.pilot)
  rintro e e' ⟨q, rfl⟩
  rw [readOne_key, readOne_index]

theorem labels_served (s : TcpSrv) (i : PoolIn) :
    (s.served i).labels = (s.markDirty.acceptIf i.conn).labels :=
  labels_readAll _ i i.readSet

theorem indices_clean (s : TcpSrv) :
    s.clean.indices = List.range s.clean.clis.size := by
  have h := numbered_indices (s.clis.entries.filter fun e => e.2.isopen)
  rw [← clean_entries, ← length_numbered, ← clean_entries] at h
  unfold TcpSrv.indices TcpSrv.labels
  rw [List.map_map]
  exact h

theorem labels_accept (s : TcpSrv) (ip : Ip) :
    (s.accept ip).labels.Perm
      ((ip, s.clis.size) ::
        (s.clis.erase ip).entries.map fun e => (e.1, e.2.index)) := by
  have hperm := s.clis.insert_perm ip (Clictx.accepted s.clis.size)
  exact hperm.map fun e => (e.1, e.2.index)

/-- A client at a new address is labelled with the size of the map. -/
theorem labels_accept_new (s : TcpSrv) {ip : Ip} (hnew : ip ∉ s.clis.keys) :
    (s.accept ip).labels.Perm ((ip, s.clis.size) :: s.labels) := by
  have hperm := labels_accept s ip
  rw [s.clis.erase_of_notMem hnew] at hperm
  exact hperm

theorem size_of_labels {s t : TcpSrv} (h : t.labels = s.labels) :
    t.clis.size = s.clis.size := by
  rw [← length_indices, ← length_indices, TcpSrv.indices, TcpSrv.indices, h]

/-! ## Numbering in address order -/

private theorem min_of_sorted {a : Nat} {ks : List Nat}
    (h : (a :: ks).Pairwise (· < ·)) : (a :: ks).min? = some a := by
  rw [List.min?_eq_some_iff]
  constructor
  · exact List.mem_cons_self
  · intro b hb
    rcases List.mem_cons.mp hb with rfl | hb
    · exact Nat.le_refl _
    · exact Nat.le_of_lt ((List.pairwise_cons.mp h).1 b hb)

/-- After `_clean` index 0 marks the smallest address. -/
theorem label_clean (s : TcpSrv) (l : Ip × Nat) (h : l ∈ s.clean.labels) :
    l.2 = 0 ↔ s.clean.clis.keys.min? = some l.1 := by
  have hidx := indices_clean s
  have hsorted := s.clean.clis.sorted
  have hkeys := labels_keys s.clean
  change s.clean.clis.keys.Pairwise (· < ·) at hsorted
  rw [← hkeys] at hsorted ⊢
  unfold TcpSrv.indices at hidx
  cases hlabels : s.clean.labels with
  | nil =>
      rw [hlabels] at h
      cases h
  | cons e es =>
      rw [hlabels, List.map_cons] at hsorted hidx
      rw [hlabels] at h
      have hhead : e.2 = 0 := by
        have hget := congrArg List.head? hidx
        have hsize : s.clean.clis.size = (s.clean.clis.size - 1) + 1 := by
          have hlen := congrArg List.length hidx
          simp only [List.length_cons, List.length_range] at hlen
          omega
        rw [hsize, List.range_succ_eq_map] at hget
        simpa using hget
      have hrest : ∀ x ∈ es, x.2 ≠ 0 := by
        have hnodup : (e.2 :: es.map Prod.snd).Nodup := by
          rw [hidx]
          exact List.nodup_range
        rw [List.nodup_cons, hhead] at hnodup
        intro x hx hzero
        exact hnodup.1 (hzero ▸ List.mem_map_of_mem hx)
      rw [List.map_cons, min_of_sorted hsorted]
      rcases List.mem_cons.mp h with rfl | hx
      · simp [hhead]
      · have hlt := (List.pairwise_cons.mp hsorted).1 l.1 (List.mem_map_of_mem hx)
        have hne : e.1 ≠ l.1 := Nat.ne_of_lt hlt
        simp [hrest l hx, hne]

/-- The least element depends on the members alone. -/
theorem min_congr {ks ks' : List Nat} (h : ∀ a, a ∈ ks ↔ a ∈ ks') :
    ks.min? = ks'.min? := by
  apply Option.ext
  intro a
  rw [List.min?_eq_some_iff, List.min?_eq_some_iff, h]
  simp only [h]

/-! ## At most one pilot -/

theorem count_clean (s : TcpSrv) : s.clean.indices.count 0 ≤ 1 := by
  rw [indices_clean]
  exact List.nodup_iff_count_le_one.mp List.nodup_range 0

theorem count_accept {s : TcpSrv} (h : s.indices.count 0 ≤ 1) (ip : Ip) :
    (s.accept ip).indices.count 0 ≤ 1 := by
  have hperm := (labels_accept s ip).map Prod.snd
  have hsub : ((s.clis.erase ip).entries.map
      fun e => (e.1, e.2.index)).Sublist s.labels :=
    List.filter_sublist.map fun e : Ip × Clictx => (e.1, e.2.index)
  have hle := (hsub.map Prod.snd).count_le 0
  have hlen := (hsub.map Prod.snd).length_le
  rw [List.map_cons] at hperm
  show ((s.accept ip).labels.map Prod.snd).count 0 ≤ 1
  rw [hperm.count_eq, List.count_cons]
  change _ ≤ s.indices.count 0 at hle
  change _ ≤ s.indices.length at hlen
  rw [length_indices] at hlen
  by_cases hsize : s.clis.size = 0
  · have hzero := List.count_le_length (a := 0)
      (l := ((s.clis.erase ip).entries.map
        fun e => (e.1, e.2.index)).map Prod.snd)
    simp only [hsize, beq_self_eq_true, if_true]
    omega
  · simp only [beq_iff_eq, hsize, if_false]
    omega

/-- No call makes a second pilot. -/
theorem count_step {s : TcpSrv} (h : s.indices.count 0 ≤ 1) (op : SrvOp) :
    (s.step op).indices.count 0 ≤ 1 := by
  cases op with
  | qsend i =>
      show ((s.qsend 0 i).srv.labels.map Prod.snd).count 0 ≤ 1
      rw [labels_qsend]
      exact h
  | pool i =>
      show (s.pool i).1.indices.count 0 ≤ 1
      rcases pool_cases s i with ⟨_, hpool⟩ | ⟨_, hpool⟩ | ⟨_, _, hpool⟩
      · rw [hpool]
        exact h
      · rw [hpool]
        exact count_clean (s.served i)
      · rw [hpool]
        show ((s.served i).labels.map Prod.snd).count 0 ≤ 1
        rw [labels_served]
        cases i.conn with
        | none => exact h
        | some ip => exact count_accept (s := s.markDirty) h ip

/-- With one index 0 in use there is one client that has it. -/
theorem eq_of_pilots {s : TcpSrv} (h : s.indices.count 0 ≤ 1) {a b : Ip}
    (ha : (a, 0) ∈ s.labels) (hb : (b, 0) ∈ s.labels) : a = b := by
  by_contra hne
  have hpair : [(a, 0), (b, 0)].Subperm s.labels := by
    apply List.subperm_of_subset
    · simp [hne]
    · intro x hx
      simp only [List.mem_cons, List.not_mem_nil, or_false] at hx
      rcases hx with rfl | rfl
      · exact ha
      · exact hb
  obtain ⟨l, hperm, hsub⟩ := hpair
  have hle := (hsub.map Prod.snd).count_le 0
  rw [(hperm.map Prod.snd).count_eq] at hle
  simp only [List.map_cons, List.map_nil, List.count_cons_self,
    List.count_nil] at hle
  change _ ≤ s.indices.count 0 at hle
  omega

/-! ## Exactly one pilot -/

/-- The indices in use are `0, …, n-1`, each used once, so with a client
connected there is exactly one pilot. -/
structure TcpSrv.OnePilot (s : TcpSrv) : Prop where
  numbered : s.indices.Perm (List.range s.clis.size)
  pilot : 0 < s.clis.size → s.indices.count 0 = 1

theorem onePilot_of_perm {s : TcpSrv}
    (h : s.indices.Perm (List.range s.clis.size)) : s.OnePilot where
  numbered := h
  pilot := by
    intro hpos
    rw [h.count_eq]
    exact List.count_eq_one_of_mem List.nodup_range (List.mem_range.mpr hpos)

theorem onePilot_of_labels {s t : TcpSrv} (h : t.labels = s.labels)
    (hs : s.OnePilot) : t.OnePilot := by
  apply onePilot_of_perm
  rw [TcpSrv.indices, h, size_of_labels h]
  exact hs.numbered

theorem onePilot_markDirty {s : TcpSrv} (h : s.OnePilot) :
    s.markDirty.OnePilot :=
  onePilot_of_labels (s := s) (t := s.markDirty) rfl h

/-- A `pool` that accepts from an address already in the map ends in
`_clean`. -/
def ReplacedOnlyWhenCleaning (s : TcpSrv) : SrvOp → Prop
  | .qsend _ => True
  | .pool i => ∀ ip, i.Accepts ip → ip ∈ s.clis.keys → s.Cleans i

/-- Accepting from a new address continues the numbering. -/
theorem onePilot_accept {s : TcpSrv} (h : s.OnePilot) {ip : Ip}
    (hnew : ip ∉ s.clis.keys) : (s.accept ip).OnePilot := by
  have hperm : (s.accept ip).indices.Perm (s.clis.size :: s.indices) :=
    (labels_accept_new s hnew).map Prod.snd
  have hsize : (s.accept ip).clis.size = s.clis.size + 1 := by
    rw [← length_indices, hperm.length_eq, List.length_cons, length_indices]
  apply onePilot_of_perm
  rw [hsize, List.range_succ]
  exact hperm.trans ((h.numbered.cons s.clis.size).trans
    (List.perm_append_singleton _ _).symm)

/-- Accepting from an address in the map leaves a gap in the numbering. -/
theorem not_onePilot_accept {s : TcpSrv} {ip : Ip} (hold : ip ∈ s.clis.keys) :
    ¬(s.accept ip).OnePilot := by
  intro h
  obtain ⟨k, hk⟩ := (s.clis.mem_keys ip).mp hold
  have hperm := (labels_accept s ip).map Prod.snd
  rw [List.map_cons] at hperm
  have hsize : (s.accept ip).clis.size = s.clis.size := by
    have herase := (s.clis.perm_erase hk).length_eq
    have hlen := hperm.length_eq
    rw [List.length_map, ← List.length_map Prod.snd] at hlen
    rw [← length_indices, TcpSrv.indices, hlen]
    simpa [KeyMap.size] using herase.symm
  have hmem : s.clis.size ∈ (s.accept ip).indices :=
    hperm.mem_iff.mpr List.mem_cons_self
  have hlt := List.mem_range.mp (h.numbered.mem_iff.mp hmem)
  omega

theorem onePilot_step {s : TcpSrv} (h : s.OnePilot) (op : SrvOp)
    (hop : ReplacedOnlyWhenCleaning s op) : (s.step op).OnePilot := by
  cases op with
  | qsend i => exact onePilot_of_labels (labels_qsend s 0 i) h
  | pool i =>
      show (s.pool i).1.OnePilot
      rcases pool_cases s i with ⟨_, hpool⟩ | ⟨_, hpool⟩ | ⟨herr, hclean, hpool⟩
      · rw [hpool]
        exact onePilot_markDirty h
      · rw [hpool]
        apply onePilot_of_perm
        rw [indices_clean]
      · rw [hpool]
        apply onePilot_of_labels (labels_served s i)
        cases hconn : i.conn with
        | none => exact onePilot_markDirty h
        | some ip =>
            have hnew : ip ∉ s.clis.keys := by
              intro hold
              exact hclean (hop ip ⟨herr, hconn⟩ hold)
            exact onePilot_accept (onePilot_markDirty h) hnew

theorem replacedOnlyWhenCleaning_of_onePilot {s : TcpSrv} (op : SrvOp)
    (h : (s.step op).OnePilot) : ReplacedOnlyWhenCleaning s op := by
  cases op with
  | qsend i => trivial
  | pool i =>
      intro ip hacc hold
      replace h : (s.pool i).1.OnePilot := h
      rcases pool_cases s i with ⟨herr, _⟩ | ⟨hclean, _⟩ | ⟨_, _, hpool⟩
      · exact absurd hacc.1 herr
      · exact hclean
      · rw [hpool] at h
        have hserved := onePilot_of_labels (labels_served s i).symm h
        rw [hacc.2] at hserved
        exact absurd hserved (not_onePilot_accept (s := s.markDirty) hold)

/-- The indices are `0, …, n-1` in every state of a run exactly when each
`pool` that accepts from an address already in the map goes on to clean up. -/
theorem onePilot_iff_replacedOnlyWhenCleaning (ops : List SrvOp) :
    Throughout TcpSrv.step TcpSrv.OnePilot TcpSrv.init ops ↔
      Along TcpSrv.step ReplacedOnlyWhenCleaning TcpSrv.init ops := by
  apply throughout_iff_along (I := TcpSrv.OnePilot)
  · intro s op h hop
    exact onePilot_step h op hop
  · intro s h
    exact h
  · intro s op _ h
    exact replacedOnlyWhenCleaning_of_onePilot op h
  · exact onePilot_of_perm (List.Perm.refl _)

/-- A `pool` call in which nothing happens but one accept. -/
def PoolIn.accepting (ip : Ip) : PoolIn :=
  ⟨none, [], some ip, fun _ => [], fun _ => 0⟩

/-- A `pool` call in which `select` reports that a client hung up. -/
def PoolIn.hangingUp (ip : Ip) : PoolIn :=
  ⟨none, [ip], none, fun _ => [], fun _ => 0⟩

/-- A `pool` call in which nothing happens. -/
def PoolIn.idle : PoolIn := ⟨none, [], none, fun _ => [], fun _ => 0⟩

/-- A `pool` call that receives a record from one client. -/
def PoolIn.reporting (ip : Ip) (req : BufHdr) : PoolIn :=
  ⟨none, [ip], none, fun _ => [.data req.encode], fun _ => 0⟩

/-- A chunk of one byte, sent to everybody in one go. -/
def QsendIn.probe : QsendIn where
  chunk := ⟨{ BufHdr.zero with bufLen := 1 }, [0], false⟩
  usecs := 0
  tick := fun _ => 0
  sends := fun _ => [⟨49, 0⟩]

/-- A client that reconnects before its old socket is noticed dead gets index 1,
and there is no pilot. -/
theorem onePilot_fails_on_reconnect :
    ¬∀ ops, Throughout TcpSrv.step TcpSrv.OnePilot TcpSrv.init ops := by
  intro h
  have hlast := (h [.pool (.accepting 7), .pool (.accepting 7)]).last.pilot
  exact absurd (hlast (by decide)) (by decide)

end RoomSpeaker
