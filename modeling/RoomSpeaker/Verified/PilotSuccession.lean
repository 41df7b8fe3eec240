import RoomSpeaker.Foundation.Arrival
import RoomSpeaker.Verified.PilotIndex

/-!
# Pilot succession

The README gives the pilot role to the client connected first and, when it
leaves, to the next one.  `_clean` gives index 0 to the smallest address.

## Main results

* `pilotInv_step` — as long as each cleanup finds the smallest address among
  the earliest, index 0 belongs to the client accepted earliest.
* `pilotSucceeds_iff_earliestIsSmallest` — for clients at different addresses,
  the pilot role follows the order of connection exactly when, at each cleanup,
  the smallest address among the clients still connected is the one accepted
  first.
-/

namespace RoomSpeaker

open Foundation

/-! ## Runs with their order of connection -/

/-- The server, with the addresses accepted so far in order. -/
structure PilotRun where
  srv : TcpSrv
  arrivals : List Ip

/-- The order of connection after a call. -/
def arrivalsAfter (l : List Ip) : SrvOp → List Ip
  | .qsend _ => l
  | .pool i =>
      match i.selectErr, i.conn with
      | none, some ip => arrive l ip
      | _, _ => l

def PilotRun.step (r : PilotRun) (op : SrvOp) : PilotRun :=
  ⟨r.srv.step op, arrivalsAfter r.arrivals op⟩

def PilotRun.init : PilotRun := ⟨TcpSrv.init, []⟩

/-- The client of the map that was accepted earliest. -/
def PilotRun.first (r : PilotRun) : Option Ip :=
  earliest r.arrivals r.srv.clis.keys

/-- Connections come from addresses that are not in the map. -/
def FromNewAddress (r : PilotRun) : SrvOp → Prop
  | .qsend _ => True
  | .pool i => ∀ ip, i.Accepts ip → ip ∉ r.srv.clis.keys

/-- The pilot keeps index 0 as long as it is in the map. -/
def KeepsPilot (r : PilotRun) (op : SrvOp) : Prop :=
  ∀ a n, (a, 0) ∈ r.srv.labels → (a, n) ∈ (r.step op).srv.labels → n = 0

/-- If the pilot is gone after `_clean`, the pilot is the client accepted
earliest. -/
def PassesPilotOn (r : PilotRun) : SrvOp → Prop
  | .qsend _ => True
  | .pool i => r.srv.Cleans i →
      (∀ a, (a, 0) ∈ r.srv.labels → a ∉ (r.step (.pool i)).srv.clis.keys) →
      ∀ l ∈ (r.step (.pool i)).srv.labels,
        l.2 = 0 ↔ (r.step (.pool i)).first = some l.1

/-- One step of pilot succession as the README states it. -/
def PilotSucceeds (r : PilotRun) (op : SrvOp) : Prop :=
  KeepsPilot r op ∧ PassesPilotOn r op

/-- When `_clean` runs, the smallest address still connected is the one
accepted earliest. -/
def EarliestIsSmallest (r : PilotRun) : SrvOp → Prop
  | .qsend _ => True
  | .pool i => r.srv.Cleans i →
      earliest (arrivalsAfter r.arrivals (.pool i)) (r.srv.survivors i) =
        (r.srv.survivors i).min?

instance (r : PilotRun) : ∀ op, Decidable (EarliestIsSmallest r op)
  | .qsend _ => isTrue trivial
  | .pool _ => inferInstanceAs (Decidable (_ → _))

/-! ## The invariant -/

/-- Every client in the map has arrived, and index 0 marks the earliest. -/
structure PilotInv (r : PilotRun) : Prop where
  known : ∀ a ∈ r.srv.clis.keys, a ∈ r.arrivals
  pilot : ∀ l ∈ r.srv.labels, l.2 = 0 ↔ r.first = some l.1

theorem pilotInv_init : PilotInv PilotRun.init where
  known := by intro a h; cases h
  pilot := by intro l h; cases h

theorem keys_of_labels {s t : TcpSrv} (h : t.labels = s.labels) :
    t.clis.keys = s.clis.keys := by
  rw [← labels_keys, ← labels_keys, h]

/-- The invariant sees only the labels and the order of connection. -/
private theorem PilotInv.of_labels {r r' : PilotRun} (h : PilotInv r)
    (hl : r'.srv.labels = r.srv.labels) (ha : r'.arrivals = r.arrivals) :
    PilotInv r' where
  known := by
    intro a hk
    rw [keys_of_labels hl] at hk
    rw [ha]
    exact h.known a hk
  pilot := by
    intro l hmem
    rw [hl] at hmem
    unfold PilotRun.first
    rw [ha, keys_of_labels hl]
    exact h.pilot l hmem

theorem mem_keys_of_label {s : TcpSrv} {a : Ip} {n : Nat}
    (h : (a, n) ∈ s.labels) : a ∈ s.clis.keys := by
  rw [← labels_keys]
  exact List.mem_map_of_mem h

theorem exists_label {s : TcpSrv} {a : Ip} (h : a ∈ s.clis.keys) :
    ∃ n, (a, n) ∈ s.labels := by
  rw [← labels_keys] at h
  obtain ⟨⟨_, n⟩, hmem, rfl⟩ := List.mem_map.mp h
  exact ⟨n, hmem⟩

/-- In a map that is not empty the earliest client has index 0. -/
theorem PilotInv.exists_pilot {r : PilotRun} (h : PilotInv r) {a : Ip}
    (hk : a ∈ r.srv.clis.keys) : ∃ b, r.first = some b ∧ (b, 0) ∈ r.srv.labels := by
  obtain ⟨b, hb⟩ := exists_earliest (h.known a hk) hk
  obtain ⟨n, hn⟩ := exists_label (earliest_mem hb)
  have hzero : n = 0 := (h.pilot (b, n) hn).mpr hb
  subst hzero
  exact ⟨b, hb, hn⟩

/-! ## Accepting -/

/-- A client accepted from a new address takes index 0 exactly when it is
alone. -/
private theorem PilotInv.accept {r : PilotRun} (h : PilotInv r) {ip : Ip}
    (hnew : ip ∉ r.srv.clis.keys) :
    PilotInv ⟨r.srv.accept ip, arrive r.arrivals ip⟩ := by
  have hlabels := labels_accept_new r.srv hnew
  have hkeys : ∀ b, b ∈ (r.srv.accept ip).clis.keys ↔
      b = ip ∨ b ∈ r.srv.clis.keys := by
    intro b
    have hperm := hlabels.map Prod.fst
    rw [labels_keys, List.map_cons, labels_keys] at hperm
    rw [hperm.mem_iff, List.mem_cons]
  constructor
  · intro a ha
    rw [mem_arrive]
    rcases (hkeys a).mp ha with heq | hk
    · exact Or.inr heq
    · exact Or.inl (h.known a hk)
  · intro l hl
    rw [hlabels.mem_iff, List.mem_cons] at hl
    unfold PilotRun.first
    by_cases hempty : r.srv.clis.keys = []
    · have hsize : r.srv.clis.size = 0 := by
        have hlen := congrArg List.length hempty
        simpa [KeyMap.keys, KeyMap.size] using hlen
      have hfirst : earliest (arrive r.arrivals ip)
          (r.srv.accept ip).clis.keys = some ip := by
        apply earliest_arrive_alone
        intro b
        rw [hkeys, hempty]
        simp
      rw [hfirst]
      rcases hl with rfl | hl
      · simp [hsize]
      · have hmem := mem_keys_of_label hl
        rw [hempty] at hmem
        cases hmem
    · obtain ⟨c, hc⟩ := List.exists_mem_of_ne_nil _ hempty
      obtain ⟨a, hfirst, hzero⟩ := h.exists_pilot hc
      have hsize : r.srv.clis.size ≠ 0 := by
        intro hz
        have hlen : r.srv.clis.keys.length = 0 := by
          simpa [KeyMap.keys, KeyMap.size] using hz
        exact hempty (List.length_eq_zero_iff.mp hlen)
      have hstill : earliest (arrive r.arrivals ip)
          (r.srv.accept ip).clis.keys = some a := by
        apply earliest_arrive hfirst hnew
        · exact (hkeys a).mpr (Or.inr (earliest_mem hfirst))
        · intro b hb
          exact ((hkeys b).mp hb).symm
      rw [hstill]
      rcases hl with rfl | hl
      · have hne : a ≠ ip := by
          rintro rfl
          exact hnew (earliest_mem hfirst)
        simp [hsize, hne]
      · rw [h.pilot l hl, hfirst]

/-- The accepting and the reading part of a `pool` call keep the invariant. -/
private theorem PilotInv.served {r : PilotRun} (h : PilotInv r) {i : PoolIn}
    (herr : i.selectErr = none) (hnew : FromNewAddress r (.pool i)) :
    PilotInv ⟨r.srv.served i, arrivalsAfter r.arrivals (.pool i)⟩ := by
  have hmark : PilotInv ⟨r.srv.markDirty, r.arrivals⟩ :=
    h.of_labels (r := r) rfl rfl
  cases hconn : i.conn with
  | none =>
      have hl := labels_served r.srv i
      rw [hconn] at hl
      apply h.of_labels hl
      simp [arrivalsAfter, herr, hconn]
  | some ip =>
      have hl := labels_served r.srv i
      rw [hconn] at hl
      have hacc := hmark.accept (hnew ip ⟨herr, hconn⟩)
      apply hacc.of_labels hl
      simp [arrivalsAfter, herr, hconn]

/-! ## Cleaning up -/

private theorem earliest_congr {l ks ks' : List Ip}
    (h : ∀ a, a ∈ ks ↔ a ∈ ks') : earliest l ks = earliest l ks' := by
  simp only [earliest, h]

/-- Who is earliest before a `pool` call and survives it is earliest among the
survivors. -/
private theorem first_survives {r : PilotRun} {i : PoolIn} {a : Ip}
    (herr : i.selectErr = none) (hnew : FromNewAddress r (.pool i))
    (hfirst : r.first = some a) (ha : a ∈ r.srv.survivors i) :
    earliest (arrivalsAfter r.arrivals (.pool i)) (r.srv.survivors i) =
      some a := by
  have hold : ∀ b ∈ r.srv.survivors i, b ∈ r.srv.clis.keys ∨ i.conn = some b := by
    intro b hb
    rcases (mem_survivors r.srv i b).mp hb with ⟨e, he, _, rfl⟩ | hconn
    · exact Or.inl (List.mem_map_of_mem he)
    · exact Or.inr hconn
  cases hconn : i.conn with
  | none =>
      have hsame : arrivalsAfter r.arrivals (.pool i) = r.arrivals := by
        simp [arrivalsAfter, herr, hconn]
      rw [hsame]
      apply earliest_of_subset hfirst ha
      intro b hb
      rcases hold b hb with hk | hk
      · exact hk
      · rw [hconn] at hk
        cases hk
  | some ip =>
      have harr : arrivalsAfter r.arrivals (.pool i) = arrive r.arrivals ip := by
        simp [arrivalsAfter, herr, hconn]
      rw [harr]
      apply earliest_arrive hfirst (hnew ip ⟨herr, hconn⟩) ha
      intro b hb
      rcases hold b hb with hk | hk
      · exact Or.inl hk
      · rw [hconn] at hk
        exact Or.inr (Option.some.inj hk).symm

/-- After a cleanup, index 0 marks the earliest client exactly when the
smallest address is the earliest. -/
private theorem first_clean {r : PilotRun} {i : PoolIn} (hclean : r.srv.Cleans i)
    (hpool : (r.srv.pool i).1 = (r.srv.served i).clean) :
    (∀ l ∈ (r.step (.pool i)).srv.labels,
        l.2 = 0 ↔ (r.step (.pool i)).first = some l.1) ↔
      EarliestIsSmallest r (.pool i) := by
  have hsrv : (r.step (.pool i)).srv = (r.srv.served i).clean := hpool
  have hmem := mem_clean_keys r.srv i
  have hfirst : (r.step (.pool i)).first =
      earliest (arrivalsAfter r.arrivals (.pool i)) (r.srv.survivors i) := by
    unfold PilotRun.first
    rw [hsrv]
    exact earliest_congr hmem
  have hmin := min_congr hmem
  rw [hsrv, hfirst]
  constructor
  · intro h _
    cases hsm : (r.srv.survivors i).min? with
    | none =>
        rw [List.min?_eq_none_iff.mp hsm]
        simp [earliest]
    | some a =>
        have ha := (hmem a).mpr ((List.min?_eq_some_iff.mp hsm).1)
        obtain ⟨n, hn⟩ := exists_label ha
        have hzero := (label_clean _ _ hn).mpr (hmin.trans hsm)
        exact (h (a, n) hn).mp hzero
  · intro h l hl
    rw [label_clean _ l hl, hmin, h hclean]

theorem pilotInv_step {r : PilotRun} (h : PilotInv r) (op : SrvOp)
    (hnew : FromNewAddress r op) (hop : EarliestIsSmallest r op) :
    PilotInv (r.step op) := by
  cases op with
  | qsend i => exact h.of_labels (labels_qsend r.srv 0 i) rfl
  | pool i =>
      rcases pool_cases r.srv i with
        ⟨herr, hpool⟩ | ⟨hclean, hpool⟩ | ⟨herr, _, hpool⟩
      · apply h.of_labels
        · show (r.srv.pool i).1.labels = r.srv.labels
          rw [hpool]
          rfl
        · show arrivalsAfter r.arrivals (.pool i) = r.arrivals
          cases hsel : i.selectErr with
          | none => exact absurd hsel herr
          | some n => simp [arrivalsAfter, hsel]
      · have hserved := h.served hclean.1 hnew
        constructor
        · intro a ha
          have hk : a ∈ (r.srv.served i).clean.clis.keys := by
            rw [← hpool]
            exact ha
          apply hserved.known
          rcases (mem_survivors r.srv i a).mp ((mem_clean_keys r.srv i a).mp hk)
            with ⟨e, he, hstays, rfl⟩ | hconn
          · obtain ⟨q, hq⟩ := exists_served he hstays.1
            have hkey := List.mem_map_of_mem (f := Prod.fst) hq
            rwa [readOne_key] at hkey
          · exact List.mem_map_of_mem (f := Prod.fst) (accepted_served hconn)
        · exact (first_clean hclean hpool).mpr hop
      · have hserved := h.served herr hnew
        have hsrv : r.step (.pool i) =
            ⟨r.srv.served i, arrivalsAfter r.arrivals (.pool i)⟩ := by
          rw [PilotRun.step, TcpSrv.step, hpool]
        rw [hsrv]
        exact hserved

/-- A call that renumbers nobody keeps the pilot. -/
private theorem keepsPilot_of_labels {r : PilotRun} {op : SrvOp}
    (h : ∀ l ∈ (r.step op).srv.labels, l ∈ r.srv.labels ∨
      l.1 ∉ r.srv.clis.keys) : KeepsPilot r op := by
  intro a n hzero hn
  rcases h (a, n) hn with hold | hnot
  · have hnodup : (r.srv.labels.map Prod.fst).Nodup := by
      rw [labels_keys]
      exact r.srv.clis.keys_nodup
    have heq := List.inj_on_of_nodup_map hnodup hold hzero rfl
    exact congrArg Prod.snd heq
  · exact absurd (mem_keys_of_label hzero) hnot

/-- A cleanup respects the succession exactly when it finds the smallest address
among the earliest: either the old pilot is still there, or the role is passed
on. -/
private theorem pilotSucceeds_clean {r : PilotRun} (h : PilotInv r) {i : PoolIn}
    (hnew : FromNewAddress r (.pool i)) (hclean : r.srv.Cleans i)
    (hpool : (r.srv.pool i).1 = (r.srv.served i).clean) :
    PilotSucceeds r (.pool i) ↔ EarliestIsSmallest r (.pool i) := by
  have hsrv : (r.step (.pool i)).srv = (r.srv.served i).clean := hpool
  have hfirst := first_clean hclean hpool
  have hlabel := label_clean (r.srv.served i)
  have hmin := min_congr (mem_clean_keys r.srv i)
  -- the pilot from before, if it is still in the map, is still the earliest
  have hstays : ∀ a, (a, 0) ∈ r.srv.labels →
      a ∈ (r.srv.served i).clean.clis.keys →
      earliest (arrivalsAfter r.arrivals (.pool i)) (r.srv.survivors i) =
        some a := by
    intro a hzero hk
    have hwas := (h.pilot (a, 0) hzero).mp rfl
    exact first_survives hclean.1 hnew hwas ((mem_clean_keys r.srv i a).mp hk)
  constructor
  · rintro ⟨hkeep, hpass⟩
    by_cases hstill : ∃ a, (a, 0) ∈ r.srv.labels ∧
        a ∈ (r.step (.pool i)).srv.clis.keys
    · obtain ⟨a, hzero, hk⟩ := hstill
      obtain ⟨n, hn⟩ := exists_label hk
      have hn0 := hkeep a n hzero hn
      subst hn0
      rw [hsrv] at hn hk
      have hsm := (hlabel (a, 0) hn).mp rfl
      intro _
      rw [← hmin, hsm]
      exact hstays a hzero hk
    · apply hfirst.mp
      apply hpass hclean
      intro a hzero hk
      exact hstill ⟨a, hzero, hk⟩
  · intro hop
    refine ⟨?_, fun _ _ => hfirst.mpr hop⟩
    intro a n hzero hn
    have hk := mem_keys_of_label hn
    rw [hsrv] at hn hk
    have hsm := hop hclean
    exact (hlabel (a, n) hn).mpr
      (hmin.trans (hsm.symm.trans (hstays a hzero hk)))

/-- A call that does not clean up respects the succession. -/
private theorem pilotSucceeds_of_labels {r : PilotRun} {i : PoolIn}
    (hno : ¬ r.srv.Cleans i)
    (h : ∀ l ∈ (r.srv.pool i).1.labels, l ∈ r.srv.labels ∨
      l.1 ∉ r.srv.clis.keys) :
    PilotSucceeds r (.pool i) ↔ EarliestIsSmallest r (.pool i) := by
  have hkeep : KeepsPilot r (.pool i) := keepsPilot_of_labels h
  exact ⟨fun _ hc => absurd hc hno,
    fun _ => ⟨hkeep, fun hc => absurd hc hno⟩⟩

private theorem pilotSucceeds_iff {r : PilotRun} (h : PilotInv r) (op : SrvOp)
    (hnew : FromNewAddress r op) :
    PilotSucceeds r op ↔ EarliestIsSmallest r op := by
  cases op with
  | qsend i =>
      have hkeep : KeepsPilot r (.qsend i) := by
        apply keepsPilot_of_labels
        intro l hl
        have hl' : l ∈ (r.srv.qsend 0 i).srv.labels := hl
        rw [labels_qsend] at hl'
        exact Or.inl hl'
      exact ⟨fun _ => trivial, fun _ => ⟨hkeep, trivial⟩⟩
  | pool i =>
      rcases pool_cases r.srv i with
        ⟨herr, hpool⟩ | ⟨hclean, hpool⟩ | ⟨herr, hclean, hpool⟩
      · apply pilotSucceeds_of_labels (fun hc => herr hc.1)
        intro l hl
        rw [hpool] at hl
        exact Or.inl hl
      · exact pilotSucceeds_clean h hnew hclean hpool
      · apply pilotSucceeds_of_labels hclean
        intro l hl
        rw [hpool, labels_served] at hl
        cases hconn : i.conn with
        | none =>
            rw [hconn] at hl
            exact Or.inl hl
        | some ip =>
            have hip := hnew ip ⟨herr, hconn⟩
            rw [hconn] at hl
            have hperm := labels_accept_new r.srv.markDirty
              (show ip ∉ _ from hip)
            rcases List.mem_cons.mp (hperm.mem_iff.mp hl) with rfl | hold
            · exact Or.inr hip
            · exact Or.inl hold

/-- For clients at different addresses, the pilot role follows the order of
connection exactly when, at each cleanup, the smallest address among the clients
still connected is the one accepted first. -/
theorem pilotSucceeds_iff_earliestIsSmallest (ops : List SrvOp)
    (h : Along PilotRun.step FromNewAddress PilotRun.init ops) :
    Along PilotRun.step PilotSucceeds PilotRun.init ops ↔
      Along PilotRun.step EarliestIsSmallest PilotRun.init ops :=
  along_iff_along (fun _ op hI hnew hop => pilotInv_step hI op hnew hop)
    (fun _ op hI hnew => pilotSucceeds_iff hI op hnew) ops PilotRun.init
    pilotInv_init h

private theorem fromNewAddress_accepting {r : PilotRun} {ip : Ip}
    (h : ip ∉ r.srv.clis.keys) : FromNewAddress r (.pool (.accepting ip)) := by
  intro a hacc
  have heq : ip = a := Option.some.inj hacc.2
  exact heq ▸ h

private theorem fromNewAddress_none {r : PilotRun} {i : PoolIn}
    (h : i.conn = none) : FromNewAddress r (.pool i) := by
  intro a hacc
  have hconn := hacc.2
  rw [h] at hconn
  cases hconn

/-- Clients that join in address order: the second takes over from the
first. -/
theorem pilotSucceeds_in_address_order :
    Along PilotRun.step PilotSucceeds PilotRun.init
      [.pool (.accepting 5), .pool (.accepting 10), .pool (.hangingUp 5),
        .pool .idle] := by
  refine (pilotSucceeds_iff_earliestIsSmallest _ ?_).mpr (by decide)
  exact ⟨fromNewAddress_accepting (by decide),
    fromNewAddress_accepting (by decide), fromNewAddress_none rfl,
    fromNewAddress_none rfl, trivial⟩

/-- Addresses 10, 5 and 20 join in this order and 20 leaves: the pilot role goes
from 10, which is still connected, to 5. -/
theorem pilotSucceeds_fails_on_cleanup :
    ¬∀ ops, Along PilotRun.step FromNewAddress PilotRun.init ops →
      Along PilotRun.step PilotSucceeds PilotRun.init ops := by
  intro h
  have hrun := h [.pool (.accepting 10), .pool (.accepting 5),
    .pool (.accepting 20), .pool (.hangingUp 20), .pool .idle]
    ⟨fromNewAddress_accepting (by decide), fromNewAddress_accepting (by decide),
      fromNewAddress_accepting (by decide), fromNewAddress_none rfl,
      fromNewAddress_none rfl, trivial⟩
  have hkeeps := hrun.2.2.2.2.1.1
  exact absurd (hkeeps 10 1 (by decide) (by decide)) (by decide)

end RoomSpeaker
