import RoomSpeaker.Model.Cleanup
import RoomSpeaker.Verified.PilotIndex

/-!
# What `_clean` leaves and what it reads

Each pass of the first loop erases one client, so the passes come to an end, and
they end with the open clients.  But the log line of a pass is made from the
record that the pass has just deleted.

## Main results

* `restart_acc`, `restart_eraseClosed` — the loop ends, and ends at the end of
  the map.
* `cleanReads_live_iff` — when the loop reads only records that are still there.
* `cleansExactly_iff_allOpen` — the call does what it is there for, and does so
  without such a read exactly when there is nothing to clean.
-/

namespace RoomSpeaker

open Foundation

/-! ## The passes -/

theorem restart_none_iff (m : KeyMap Ip Clictx) :
    restart m = none ↔ ∀ e ∈ m.entries, e.2.isopen = true := by
  unfold restart
  rw [Option.map_eq_none_iff, List.find?_eq_none]
  simp

/-- A pass that starts over has erased one client. -/
theorem restart_some {m m' : KeyMap Ip Clictx} (h : restart m = some m') :
    ∃ e ∈ m.entries, e.2.isopen = false ∧ m' = m.erase e.1 := by
  unfold restart at h
  obtain ⟨e, hfind, rfl⟩ := Option.map_eq_some_iff.mp h
  refine ⟨e, List.mem_of_find?_eq_some hfind, ?_, rfl⟩
  simpa using List.find?_some hfind

theorem restart_size {m m' : KeyMap Ip Clictx} (h : restart m = some m') :
    m'.size < m.size := by
  obtain ⟨e, hmem, _, rfl⟩ := restart_some h
  have hsize := erase_size hmem
  omega

/-- The loop cannot start over for ever. -/
theorem restart_acc (m : KeyMap Ip Clictx) :
    Acc (fun m' m => restart m = some m') m := by
  have hwf : WellFounded fun m' m : KeyMap Ip Clictx => m'.size < m.size :=
    (measure KeyMap.size).wf
  exact Subrelation.accessible restart_size (hwf.apply m)

/-- It ends where a pass finds no closed client. -/
theorem restart_eraseClosed (m : KeyMap Ip Clictx) :
    restart (eraseClosed m.size m) = none := by
  rw [restart_none_iff, eraseClosed_entries m.size m (Nat.le_refl _)]
  intro e he
  simpa using (List.mem_filter.mp he).2

/-! ## The reads -/

theorem socketReads_live {m : KeyMap Ip Clictx} (es : List (Ip × Clictx))
    (h : ∀ e ∈ es, e.1 ∈ m.keys) : ∀ r ∈ socketReads m es, r.Live := by
  induction es with
  | nil =>
      intro r hr
      cases hr
  | cons e es ih =>
      intro r hr
      rcases List.mem_cons.mp hr with rfl | hr
      · exact h e List.mem_cons_self
      · cases hopen : e.2.isopen with
        | true =>
            rw [hopen, if_pos rfl] at hr
            exact ih (fun x hx => h x (List.mem_cons_of_mem e hx)) r hr
        | false =>
            rw [hopen] at hr
            cases hr

/-- A key that was erased is gone. -/
theorem notMem_erase (m : KeyMap Ip Clictx) (ip : Ip) :
    ip ∉ (m.erase ip).keys := by
  intro h
  obtain ⟨k, hk⟩ := ((m.erase ip).mem_keys ip).mp h
  simp [KeyMap.erase, KeyMap.filter] at hk

/-- The record behind a log line is not there any more. -/
theorem logReads_dead (m : KeyMap Ip Clictx) (ip : Ip) :
    ∀ r ∈ logReads ip (m.erase ip), ¬r.Live := by
  intro r hr
  rw [List.eq_of_mem_replicate hr]
  exact notMem_erase m ip

/-- A loop with a pass left reads only live records exactly when that pass
erases nobody. -/
theorem cleanReads_live_iff (n : Nat) (m : KeyMap Ip Clictx) :
    (∀ r ∈ cleanReads (n + 1) m, r.Live) ↔
      ∀ e ∈ m.entries, e.2.isopen = true := by
  have hscan : ∀ r ∈ socketReads m m.entries, r.Live :=
    socketReads_live m.entries fun e he => List.mem_map_of_mem he
  rw [← restart_none_iff, restart, Option.map_eq_none_iff, cleanReads]
  cases hfind : m.entries.find? fun e => !e.2.isopen with
  | none =>
      rw [List.append_nil]
      exact ⟨fun _ => rfl, fun _ => hscan⟩
  | some e =>
      constructor
      · intro h
        have hlog : ⟨e.1, m.erase e.1⟩ ∈ logReads e.1 (m.erase e.1) := by
          simp [logReads]
        have hlive := h _ (List.mem_append_right _ (List.mem_append_left _ hlog))
        exact absurd hlive (logReads_dead m e.1 _ hlog)
      · intro h
        cases h

/-! ## The call -/

/-- `_clean` removes exactly the dead clients. -/
structure TcpSrv.CleansExactly (s : TcpSrv) : Prop where
  terminates : Acc (fun m' m => restart m = some m') s.clis
  ends : restart (eraseClosed s.clis.size s.clis) = none
  kept : s.clean.clis.entries =
    numbered (s.clis.entries.filter fun e => e.2.isopen)
  indices : s.clean.indices = List.range s.clean.clis.size
  pilot : s.clean.pilot = Pilot.zero
  dirty : s.clean.dirty = false
  live : ∀ r ∈ s.cleanReads, r.Live

/-- The call does all it is there for, and reads only live records exactly when
every client is open. -/
theorem cleansExactly_iff_allOpen (s : TcpSrv) :
    s.CleansExactly ↔ ∀ e ∈ s.clis.entries, e.2.isopen = true := by
  have hlive := cleanReads_live_iff s.clis.size s.clis
  constructor
  · intro h
    exact hlive.mp h.live
  · intro h
    exact
      { terminates := restart_acc s.clis
        ends := restart_eraseClosed s.clis
        kept := clean_entries s
        indices := indices_clean s
        pilot := rfl
        dirty := rfl
        live := hlive.mpr h }

/-- One client, whose last frame could not be sent. -/
theorem cleansExactly_fails_on_closed :
    ¬TcpSrv.CleansExactly
      { TcpSrv.init with
        clis := KeyMap.empty.insert 7 (Clictx.accepted 0).destroy } := by
  intro h
  have hopen := (cleanReads_live_iff _ _).mp h.live (7, (Clictx.accepted 0).destroy)
  exact absurd (hopen (by decide)) (by decide)

end RoomSpeaker
