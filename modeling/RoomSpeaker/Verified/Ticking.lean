import RoomSpeaker.Foundation.Run
import RoomSpeaker.Model.Tick
import RoomSpeaker.Verified.PilotIndex
import RoomSpeaker.Verified.SrvSpec

/-!
# What the ticks measure

`tick_count` adds thousandths of a second to whatever its argument makes of the
nanoseconds.  With milliseconds the two fit together.  With microseconds the
tick runs through a million within each second and falls back by nearly as much
at its end.

## Main results

* `tickMeasures_iff` — when the difference of two ticks is the elapsed time.
* `pingMeasures_iff`, `loopTime_iff` — the same for the round trip `rec` computes
  and for the time of a turn of the server loop.
* `roundsApart_run` — `SYNC_DATA` rounds keep their distance exactly when none is
  due across the end of a second.
* `tickCount_measures_iff` — the tick source as a whole.
-/

namespace RoomSpeaker

open Foundation

/-! ## Two readings -/

/-- The nanoseconds from one reading to another. -/
def elapsed (t t' : Timespec) : Int := t'.total - t.total

/-- A number of units of `nsecs` nanoseconds is the elapsed time, up to one
unit. -/
def Measures (nsecs : Nat) (t t' : Timespec) (units : Int) : Prop :=
  elapsed t t' ≤ (units + 1) * nsecs ∧ (units - 1) * nsecs ≤ elapsed t t'

/-- The ticks of two readings: the later one is not smaller, and the difference
is the elapsed time. -/
structure TickMeasures (nsecs : Nat) (t t' : Timespec) : Prop where
  mono : (tickCount nsecs t).toNat ≤ (tickCount nsecs t').toNat
  diff : Measures nsecs t t'
    ((tickCount nsecs t').toNat - (tickCount nsecs t).toNat)

/-- The sums of two readings lie between the same multiples of 2⁶⁴. -/
def SameTurn (nsecs : Nat) (t t' : Timespec) : Prop :=
  tickValue nsecs t / 2 ^ 64 = tickValue nsecs t' / 2 ^ 64

instance (nsecs : Nat) (t t' : Timespec) : Decidable (SameTurn nsecs t t') :=
  inferInstanceAs (Decidable (_ = _))

theorem toNat_tickCount (nsecs : Nat) (t : Timespec) :
    ((tickCount nsecs t).toNat : Int) = tickValue nsecs t % 2 ^ 64 := by
  unfold tickCount
  rw [BitVec.toNat_ofInt]
  exact Int.toNat_of_nonneg (Int.emod_nonneg _ (by decide))

/-- Two 64-bit remainders differ like the sums, but for the turns between
them. -/
theorem toNat_tickCount_diff (nsecs : Nat) (t t' : Timespec) :
    ((tickCount nsecs t').toNat : Int) - (tickCount nsecs t).toNat =
      tickValue nsecs t' - tickValue nsecs t +
        (tickValue nsecs t / 2 ^ 64 - tickValue nsecs t' / 2 ^ 64) * 2 ^ 64 := by
  rw [toNat_tickCount, toNat_tickCount, Int.emod_def, Int.emod_def]
  generalize tickValue nsecs t / 2 ^ 64 = q
  generalize tickValue nsecs t' / 2 ^ 64 = q'
  omega

/-- The difference of two ticks as `uint64_t`. -/
theorem toNat_tickCount_sub (nsecs : Nat) (t t' : Timespec) :
    ((tickCount nsecs t' - tickCount nsecs t).toNat : Int) =
      (tickValue nsecs t' - tickValue nsecs t) % 2 ^ 64 := by
  have hlt := (tickCount nsecs t).isLt
  have hdiff := toNat_tickCount_diff nsecs t t'
  have hcast : ((tickCount nsecs t' - tickCount nsecs t).toNat : Int) =
      ((tickCount nsecs t').toNat - (tickCount nsecs t).toNat) % 2 ^ 64 := by
    clear hdiff
    rw [BitVec.toNat_sub]
    omega
  rw [hcast, hdiff, Int.add_mul_emod_self_right]

/-! ## Milliseconds -/

/-- With milliseconds the sum is the elapsed time. -/
theorem tickValue_milli (t : Timespec) :
    tickValue 1000000 t = t.total / 1000000 := by
  unfold tickValue Timespec.total
  omega

theorem measures_milli_iff {t t' : Timespec} {j : Int} :
    Measures 1000000 t t'
        (tickValue 1000000 t' - tickValue 1000000 t + j * 2 ^ 64) ↔ j = 0 := by
  rw [tickValue_milli, tickValue_milli]
  unfold Measures elapsed
  generalize t.total = a
  generalize t'.total = a'
  constructor
  · intro h
    obtain ⟨hlow, hhigh⟩ := h
    have hturns : -3 < j * 2 ^ 64 ∧ j * 2 ^ 64 < 3 := by
      generalize j * 2 ^ 64 = w at *
      constructor
      · omega
      · omega
    omega
  · intro hzero
    rw [hzero]
    constructor
    · omega
    · omega

theorem tickMeasures_milli_iff {t t' : Timespec} (hle : t.total ≤ t'.total) :
    TickMeasures 1000000 t t' ↔ SameTurn 1000000 t t' := by
  have hdiff := toNat_tickCount_diff 1000000 t t'
  unfold SameTurn
  constructor
  · intro h
    have hzero := measures_milli_iff.mp (hdiff ▸ h.diff)
    omega
  · intro hturn
    have hmono : tickValue 1000000 t ≤ tickValue 1000000 t' := by
      rw [tickValue_milli, tickValue_milli]
      exact Int.ediv_le_ediv (by decide) hle
    constructor
    · rw [hturn] at hdiff
      omega
    · rw [hdiff]
      exact measures_milli_iff.mpr (by omega)

/-! ## Microseconds -/

/-- The microseconds of a reading within its second. -/
def Timespec.micro (t : Timespec) : Int := (t.nsec / 1000 : Nat)

theorem Timespec.micro_range (t : Timespec) :
    0 ≤ t.micro ∧ t.micro < 1000000 := by
  have hvalid := t.valid
  unfold Timespec.micro
  omega

/-- What the division cuts off. -/
private def Timespec.rest (t : Timespec) : Int := (t.nsec % 1000 : Nat)

private theorem Timespec.rest_range (t : Timespec) :
    0 ≤ t.rest ∧ t.rest < 1000 := by
  unfold Timespec.rest
  omega

theorem tickValue_micro (t : Timespec) :
    tickValue 1000 t = 1000 * t.sec + t.micro := by
  unfold tickValue Timespec.micro
  omega

private theorem total_micro (t : Timespec) :
    t.total = 1000000000 * t.sec + (1000 * t.micro + t.rest) := by
  unfold Timespec.total Timespec.micro Timespec.rest
  omega

/-- Within a second the sums differ by the elapsed microseconds. -/
theorem measures_of_sec {t t' : Timespec} (hle : t.total ≤ t'.total)
    (hsec : t.sec = t'.sec) :
    0 ≤ tickValue 1000 t' - tickValue 1000 t ∧
      tickValue 1000 t' - tickValue 1000 t < 1000000 ∧
      Measures 1000 t t' (tickValue 1000 t' - tickValue 1000 t) := by
  have hmicro := t.micro_range
  have hmicro' := t'.micro_range
  have hrest := t.rest_range
  have hrest' := t'.rest_range
  unfold Measures elapsed
  rw [total_micro, total_micro] at hle ⊢
  rw [tickValue_micro, tickValue_micro, hsec]
  rw [hsec] at hle
  refine ⟨?_, ?_, ?_, ?_⟩
  · omega
  · omega
  · omega
  · omega

/-- How far the sums fall behind: `k` seconds later, `a` microseconds and `r`
nanoseconds further into the second. -/
private theorem behind {k a r x w : Int} (hr : -1000 < r ∧ r < 1000)
    (hx : x = 1000 * k + a + w)
    (hlow : 1000000000 * k + (1000 * a + r) ≤ (x + 1) * 1000)
    (hhigh : (x - 1) * 1000 ≤ 1000000000 * k + (1000 * a + r)) :
    999000 * k - 2 ≤ w ∧ w ≤ 999000 * k + 2 := by
  constructor
  · omega
  · omega

/-- A 64-bit number of microseconds does not count more seconds than it holds. -/
private theorem few_seconds {k a r x : Int} (hr : -1000 < r) (ha : -1000000 < a)
    (hlt : x < 2 ^ 64) (hlow : 1000000000 * k + (1000 * a + r) ≤ (x + 1) * 1000) :
    1000000 * k ≤ 2 ^ 64 + 2000000 := by
  omega

/-- It is not made up for by turns of 2⁶⁴. -/
private theorem not_turns {k j : Int} (hpos : 1 ≤ k)
    (hfew : 1000000 * k ≤ 2 ^ 64 + 2000000)
    (hlow : 999000 * k - 2 ≤ j * 2 ^ 64) (hhigh : j * 2 ^ 64 ≤ 999000 * k + 2) :
    False := by
  cases Int.lt_or_le 0 j with
  | inl hsome =>
      have hturn : 1 * 2 ^ 64 ≤ j * 2 ^ 64 :=
        Int.mul_le_mul_of_nonneg_right hsome (by decide)
      clear hlow
      generalize j * 2 ^ 64 = w at *
      omega
  | inr hnone =>
      have hback : j * 2 ^ 64 ≤ 0 :=
        Int.mul_nonpos_of_nonpos_of_nonneg hnone (by decide)
      clear hfew hhigh
      generalize j * 2 ^ 64 = w at *
      omega

private theorem later_second {t t' : Timespec} (hle : t.total ≤ t'.total)
    (hsec : t.sec ≠ t'.sec) : 1 ≤ t'.sec - t.sec := by
  have hvalid' := t'.valid
  unfold Timespec.total at hle
  omega

/-- A number of 64 bits that is the difference of the sums up to multiples of
2⁶⁴ is the elapsed time only within a second: every second in between takes
999000 from it. -/
theorem sec_of_measures {t t' : Timespec} (hle : t.total ≤ t'.total) {x j : Int}
    (hx : x = tickValue 1000 t' - tickValue 1000 t + j * 2 ^ 64)
    (hlt : x < 2 ^ 64) (h : Measures 1000 t t' x) : t.sec = t'.sec := by
  have hfull : elapsed t t' = 1000000000 * (t'.sec - t.sec) +
      (1000 * (t'.micro - t.micro) + (t'.rest - t.rest)) := by
    unfold elapsed
    rw [total_micro, total_micro]
    omega
  have hsum : x = 1000 * (t'.sec - t.sec) + (t'.micro - t.micro) +
      j * 2 ^ 64 := by
    rw [hx, tickValue_micro, tickValue_micro]
    omega
  have hrest : -1000 < t'.rest - t.rest ∧ t'.rest - t.rest < 1000 := by
    have hthen := t.rest_range
    have hnow := t'.rest_range
    omega
  have hmicro : -1000000 < t'.micro - t.micro := by
    have hthen := t.micro_range
    have hnow := t'.micro_range
    omega
  by_contra hsec
  obtain ⟨hlow, hhigh⟩ := h
  rw [hfull] at hlow hhigh
  obtain ⟨hleast, hmost⟩ := behind hrest hsum hlow hhigh
  exact not_turns (later_second hle hsec) (few_seconds hrest.1 hmicro hlt hlow)
    hleast hmost

/-- With microseconds the ticks measure the time only within a second. -/
theorem tickMeasures_micro_iff {t t' : Timespec} (hle : t.total ≤ t'.total) :
    TickMeasures 1000 t t' ↔ t.sec = t'.sec ∧ SameTurn 1000 t t' := by
  have hdiff := toNat_tickCount_diff 1000 t t'
  unfold SameTurn
  constructor
  · intro h
    have hlt := (tickCount 1000 t').isLt
    have hsec := sec_of_measures hle hdiff (by omega) h.diff
    obtain ⟨hnonneg, hsmall, _⟩ := measures_of_sec hle hsec
    have hmono := h.mono
    exact ⟨hsec, by omega⟩
  · intro h
    obtain ⟨hsec, hturn⟩ := h
    obtain ⟨hnonneg, _, hmeasures⟩ := measures_of_sec hle hsec
    rw [hturn, Int.sub_self, Int.zero_mul, Int.add_zero] at hdiff
    constructor
    · omega
    · rw [hdiff]
      exact hmeasures

theorem tickMeasures_iff {nsecs : Nat} (hunit : nsecs = 1000 ∨ nsecs = 1000000)
    {t t' : Timespec} (hle : t.total ≤ t'.total) :
    TickMeasures nsecs t t' ↔
      (nsecs = 1000000 ∨ t.sec = t'.sec) ∧ SameTurn nsecs t t' := by
  cases hunit with
  | inl hmicro =>
      subst hmicro
      rw [tickMeasures_micro_iff hle]
      simp
  | inr hmilli =>
      subst hmilli
      rw [tickMeasures_milli_iff hle]
      simp

/-! ## The round trip and the turn of the loop -/

/-- `rec` makes of a `SYNC_DATA` report whose `srv_tick` was stamped at the first
reading the time since then. -/
def PingMeasures (t t' : Timespec) : Prop :=
  ∀ (k : Clictx) (p : Pilot) (sock : List RecvOut) (h : BufHdr)
    (rest : List Byte), delivered sock = h.encode ++ rest →
    h.frmSig = syncData → h.srvTick = tickCount 1000 t →
    Measures 1000 t t' (k.rec' p (tickCount 1000 t') sock).1.req.cliPing.toNat

/-- `rt = t2 - t1` does not wrap. -/
def LoopTime (t1 t2 : Timespec) : Prop :=
  (tickCount 1000 t2 - tickCount 1000 t1).toNat + (tickCount 1000 t1).toNat =
    (tickCount 1000 t2).toNat

/-- The round trip `rec` fills in. -/
theorem rec_cliPing (k : Clictx) (p : Pilot) (tick : BitVec 64)
    {sock : List RecvOut} {h : BufHdr} {rest : List Byte}
    (hsock : delivered sock = h.encode ++ rest) (hsig : h.frmSig = syncData) :
    (k.rec' p tick sock).1.req.cliPing = tick - h.srvTick := by
  have hrt : (receiveall sizeofBufHdr sock).1 = h.encode := by
    rw [receiveall_bytes, hsock, BufHdr.take_encode]
  have hlen : h.encode.length ≠ 0 := by
    rw [h.length_encode]
    decide
  unfold Clictx.rec'
  simp only [hrt, k.req.overlay_encode h]
  rw [if_neg hlen, if_pos hsig]

/-- The difference of two ticks measures the elapsed time within a second. -/
theorem measures_sub_iff {t t' : Timespec} (hle : t.total ≤ t'.total) :
    Measures 1000 t t' (tickCount 1000 t' - tickCount 1000 t).toNat ↔
      t.sec = t'.sec := by
  have hdiff := toNat_tickCount_sub 1000 t t'
  have hlt := (tickCount 1000 t' - tickCount 1000 t).isLt
  constructor
  · intro h
    exact sec_of_measures hle
      (j := -((tickValue 1000 t' - tickValue 1000 t) / 2 ^ 64)) (by omega)
      (by omega) h
  · intro hsec
    obtain ⟨hnonneg, hsmall, hmeasures⟩ := measures_of_sec hle hsec
    rw [hdiff, Int.emod_eq_of_lt hnonneg (by omega)]
    exact hmeasures

theorem pingMeasures_iff {t t' : Timespec} (hle : t.total ≤ t'.total) :
    PingMeasures t t' ↔ t.sec = t'.sec := by
  rw [← measures_sub_iff hle]
  constructor
  · intro h
    let report : BufHdr :=
      { BufHdr.zero with frmSig := syncData, srvTick := tickCount 1000 t }
    have hsock : delivered [.data report.encode] = report.encode ++ [] :=
      delivered_data report.encode_ne_nil []
    have hping := h (Clictx.accepted 0) Pilot.zero _ report [] hsock rfl rfl
    rw [rec_cliPing _ _ _ hsock rfl] at hping
    exact hping
  · intro h k p sock report rest hsock hsig hstamp
    rw [rec_cliPing k p _ hsock hsig, hstamp]
    exact h

theorem loopTime_iff {t1 t2 : Timespec} (hturn : SameTurn 1000 t1 t2) :
    LoopTime t1 t2 ↔
      t1.micro ≤ (t2.sec - t1.sec) * 1000 + t2.micro := by
  have hthen := toNat_tickCount 1000 t1
  have hnow := toNat_tickCount 1000 t2
  have hdiff := toNat_tickCount_sub 1000 t1 t2
  unfold SameTurn at hturn
  unfold LoopTime
  rw [tickValue_micro] at hthen hnow
  rw [tickValue_micro, tickValue_micro] at hdiff hturn
  constructor
  · intro h
    omega
  · intro h
    omega

/-! ## The rounds of `qsend` -/

/-- The readings of a run never go back. -/
def Forward (s : Paced) : PacedOp → Prop
  | .qsend t1 _ => s.now.total ≤ t1.total
  | .pool _ => True

instance (s : Paced) : ∀ op, Decidable (Forward s op)
  | .qsend _ _ => inferInstanceAs (Decidable (_ ≤ _))
  | .pool _ => isTrue trivial

/-- A `SYNC_DATA` round comes more than `QOS_TO` microseconds after the last one
since a client was accepted. -/
def RoundsApart (s : Paced) : PacedOp → Prop
  | .qsend t1 _ => s.syncs t1 = true →
      ∀ t ∈ s.latest, (qosTo : Int) * 1000 < elapsed t t1
  | .pool _ => True

/-- A `qsend` at most `QOS_TO` microseconds after the last round is in the same
second. -/
def SoonInSecond (s : Paced) : PacedOp → Prop
  | .qsend t1 _ =>
      ∀ t ∈ s.latest, elapsed t t1 ≤ (qosTo : Int) * 1000 → t.sec = t1.sec
  | .pool _ => True

instance (s : Paced) : ∀ op, Decidable (SoonInSecond s op)
  | .qsend _ _ => inferInstanceAs (Decidable (∀ t ∈ s.latest, _))
  | .pool _ => isTrue trivial

/-- While there is a last round, `_last_qos` is its tick and no client is new. -/
structure PacedInv (s : Paced) : Prop where
  settled : ∀ t ∈ s.latest, s.srv.newclient = false
  tick : ∀ t ∈ s.latest, s.srv.lastQos = tickCount 1000 t
  past : ∀ t ∈ s.latest, t.total ≤ s.now.total

/-- The three ways through the top of `qsend`. -/
theorem qsendHead_cases (s : TcpSrv) (usecs : BitVec 64) :
    (s.newclient = true ∧ (s.qsendHead usecs).2 = aliveData ∧
      (s.qsendHead usecs).1.newclient = false) ∨
    (s.newclient = false ∧ qosTo < (usecs - s.lastQos).toNat ∧
      (s.qsendHead usecs).2 = syncData ∧
      (s.qsendHead usecs).1 = { s with lastQos := usecs }) ∨
    (s.newclient = false ∧ (usecs - s.lastQos).toNat ≤ qosTo ∧
      (s.qsendHead usecs).2 = aliveData ∧ (s.qsendHead usecs).1 = s) := by
  unfold TcpSrv.qsendHead
  cases hnew : s.newclient with
  | true => exact Or.inl ⟨rfl, rfl, rfl⟩
  | false =>
      by_cases hlate : (usecs - s.lastQos).toNat > qosTo
      · simp only [Bool.false_eq_true, if_false, if_pos hlate]
        exact Or.inr (Or.inl ⟨trivial, hlate, trivial, trivial⟩)
      · simp only [Bool.false_eq_true, if_false, if_neg hlate]
        exact Or.inr (Or.inr
          ⟨trivial, Nat.le_of_not_gt hlate, trivial, trivial⟩)

/-- A `pool` call moves no round, and makes a client new exactly when it accepts
one. -/
theorem pool_pace (s : TcpSrv) (i : PoolIn) :
    (s.pool i).1.lastQos = s.lastQos ∧
      (¬(i.selectErr = none ∧ i.conn ≠ none) →
        (s.pool i).1.newclient = s.newclient) := by
  have hserved : (s.served i).lastQos = s.lastQos ∧
      (i.conn = none → (s.served i).newclient = s.newclient) := by
    unfold TcpSrv.served
    cases i.conn with
    | none => exact ⟨rfl, fun _ => rfl⟩
    | some ip => exact ⟨rfl, fun hnone => by cases hnone⟩
  rcases pool_cases s i with ⟨herr, hpool⟩ | ⟨hclean, hpool⟩ | ⟨herr, _, hpool⟩
  · rw [hpool]
    exact ⟨rfl, fun _ => rfl⟩
  · rw [hpool]
    refine ⟨hserved.1, fun hno => hserved.2 ?_⟩
    by_contra hconn
    exact hno ⟨hclean.1, hconn⟩
  · rw [hpool]
    refine ⟨hserved.1, fun hno => hserved.2 ?_⟩
    by_contra hconn
    exact hno ⟨herr, hconn⟩

/-- With a last round, another one is due when the ticks say so. -/
theorem PacedInv.syncs_iff {s : Paced} (h : PacedInv s) {t : Timespec}
    (ht : t ∈ s.latest) (t1 : Timespec) :
    s.syncs t1 = true ↔
      qosTo < (tickCount 1000 t1 - tickCount 1000 t).toNat := by
  unfold Paced.syncs
  rw [← h.tick t ht]
  rcases qsendHead_cases s.srv (tickCount 1000 t1) with
    ⟨hnew, _⟩ | ⟨_, hlate, hsig, _⟩ | ⟨_, hsoon, hsig, _⟩
  · rw [h.settled t ht] at hnew
    cases hnew
  · rw [hsig]
    exact ⟨fun _ => hlate, fun _ => rfl⟩
  · rw [hsig]
    exact ⟨fun hsync => absurd hsync (by decide), fun hlate => by omega⟩

/-- Two readings at most `QOS_TO` microseconds apart: the later tick is not due
unless a second ends in between. -/
theorem due_iff {t t1 : Timespec} (hle : t.total ≤ t1.total)
    (hsoon : elapsed t t1 ≤ (qosTo : Int) * 1000) :
    qosTo < (tickCount 1000 t1 - tickCount 1000 t).toNat ↔ t.sec ≠ t1.sec := by
  have hdiff := toNat_tickCount_sub 1000 t t1
  have hmicro := t.micro_range
  have hmicro' := t1.micro_range
  have hrest := t.rest_range
  have hrest' := t1.rest_range
  have hqos : qosTo = 250000 := rfl
  rw [hqos] at hsoon ⊢
  unfold elapsed at hsoon
  rw [total_micro, total_micro] at hle hsoon
  rw [tickValue_micro, tickValue_micro] at hdiff
  by_cases hsec : t.sec = t1.sec
  · rw [hsec] at hle hsoon hdiff
    have hnonneg : 0 ≤ 1000 * t1.sec + t1.micro - (1000 * t1.sec + t.micro) := by
      omega
    rw [Int.emod_eq_of_lt hnonneg (by omega)] at hdiff
    exact ⟨fun hlate => by omega, fun hne => absurd hsec hne⟩
  · have hone : t1.sec = t.sec + 1 := by omega
    have hback : -1000000 ≤
        1000 * t1.sec + t1.micro - (1000 * t.sec + t.micro) ∧
        1000 * t1.sec + t1.micro - (1000 * t.sec + t.micro) < 0 := by
      omega
    generalize 1000 * t1.sec + t1.micro - (1000 * t.sec + t.micro) = d at *
    clear hle hsoon hmicro hmicro' hrest hrest'
    exact ⟨fun _ => hsec, fun _ => by omega⟩

theorem pacedInv_init (start : Timespec) : PacedInv (Paced.init start) where
  settled := fun t ht => by cases ht
  tick := fun t ht => by cases ht
  past := fun t ht => by cases ht

theorem pacedInv_qsend {s : Paced} (h : PacedInv s) {t1 : Timespec}
    (hnow : s.now.total ≤ t1.total) (i : QsendIn) :
    PacedInv (s.step (.qsend t1 i)) := by
  have hhead : (s.step (.qsend t1 i)).srv.newclient =
        (s.srv.qsendHead (tickCount 1000 t1)).1.newclient ∧
      (s.step (.qsend t1 i)).srv.lastQos =
        (s.srv.qsendHead (tickCount 1000 t1)).1.lastQos := ⟨rfl, rfl⟩
  have hlatest : (s.step (.qsend t1 i)).latest =
      if s.syncs t1 then some t1 else s.latest := rfl
  unfold Paced.syncs at hlatest
  rcases qsendHead_cases s.srv (tickCount 1000 t1) with
    ⟨hnew, hsig, _⟩ | ⟨hold, _, hsig, hsrv⟩ | ⟨hold, _, hsig, hsrv⟩
  · -- no round has come since a client was accepted
    have hnone : ∀ t, t ∉ (s.step (.qsend t1 i)).latest := by
      intro t ht
      rw [hlatest, hsig] at ht
      rw [h.settled t ht] at hnew
      cases hnew
    exact ⟨fun t ht => absurd ht (hnone t), fun t ht => absurd ht (hnone t),
      fun t ht => absurd ht (hnone t)⟩
  · rw [hsig] at hlatest
    rw [hsrv] at hhead
    have hthis : ∀ t ∈ (s.step (.qsend t1 i)).latest, t = t1 := by
      intro t ht
      rw [hlatest] at ht
      exact (Option.some.inj ht).symm
    constructor
    · intro t _
      exact hhead.1.trans hold
    · intro t ht
      rw [hthis t ht]
      exact hhead.2
    · intro t ht
      rw [hthis t ht]
      exact Int.le_refl _
  · rw [hsig] at hlatest
    rw [hsrv] at hhead
    have hsame : (s.step (.qsend t1 i)).latest = s.latest := hlatest
    constructor
    · intro t _
      exact hhead.1.trans hold
    · intro t ht
      exact hhead.2.trans (h.tick t (hsame ▸ ht))
    · intro t ht
      exact Int.le_trans (h.past t (hsame ▸ ht)) hnow

theorem pacedInv_pool {s : Paced} (h : PacedInv s) (i : PoolIn) :
    PacedInv (s.step (.pool i)) := by
  obtain ⟨hlast, hnew⟩ := pool_pace s.srv i
  have hlatest : (s.step (.pool i)).latest =
      if i.selectErr = none ∧ i.conn ≠ none then none else s.latest := rfl
  have hold : ∀ t ∈ (s.step (.pool i)).latest,
      t ∈ s.latest ∧ (s.srv.pool i).1.newclient = s.srv.newclient := by
    intro t ht
    rw [hlatest] at ht
    split at ht
    · cases ht
    next hno => exact ⟨ht, hnew hno⟩
  constructor
  · intro t ht
    exact (hold t ht).2.trans (h.settled t (hold t ht).1)
  · intro t ht
    exact hlast.trans (h.tick t (hold t ht).1)
  · intro t ht
    exact h.past t (hold t ht).1

/-- One call: a round that is due too early is due across the end of a
second. -/
theorem roundsApart_iff {s : Paced} (h : PacedInv s) (op : PacedOp)
    (hforward : Forward s op) : RoundsApart s op ↔ SoonInSecond s op := by
  cases op with
  | pool i => exact Iff.rfl
  | qsend t1 i =>
      constructor
      · intro hapart t ht hsoon
        by_contra hsec
        have hle := Int.le_trans (h.past t ht) hforward
        have hdue := (due_iff hle hsoon).mpr hsec
        have hfar := hapart ((h.syncs_iff ht t1).mpr hdue) t ht
        omega
      · intro hsame hsync t ht
        by_contra hnear
        have hsoon : elapsed t t1 ≤ (qosTo : Int) * 1000 := by omega
        have hle := Int.le_trans (h.past t ht) hforward
        have hdue := (h.syncs_iff ht t1).mp hsync
        exact (due_iff hle hsoon).mp hdue (hsame t ht hsoon)

theorem roundsApart_run (start : Timespec) (ops : List PacedOp)
    (hforward : Along Paced.step Forward (Paced.init start) ops) :
    Along Paced.step RoundsApart (Paced.init start) ops ↔
      Along Paced.step SoonInSecond (Paced.init start) ops := by
  apply along_iff_along (I := PacedInv) (E := Forward)
  · intro s op h hnow _
    cases op with
    | qsend t1 i => exact pacedInv_qsend h hnow i
    | pool i => exact pacedInv_pool h i
  · intro s op h hnow
    exact roundsApart_iff h op hnow
  · exact pacedInv_init start
  · exact hforward

/-! ## The tick source -/

/--
**A microsecond tick measures time within a second only.**

The difference of two millisecond ticks is the elapsed time as long as the count
does not wrap.  That of two microsecond ticks is so only within one second; and
the same holds of the round trip in `rec`.  The server loop's `rt` wraps when the
second ends late in a turn, and `SYNC_DATA` rounds are more than `QOS_TO` apart
exactly when no `qsend` falls so soon after a round but in the next second.
-/
theorem tickCount_measures_iff (nsecs : Nat) (t t' start : Timespec)
    (ops : List PacedOp) (hunit : nsecs = 1000 ∨ nsecs = 1000000)
    (hle : t.total ≤ t'.total)
    (hforward : Along Paced.step Forward (Paced.init start) ops) :
    (TickMeasures nsecs t t' ↔
      (nsecs = 1000000 ∨ t.sec = t'.sec) ∧ SameTurn nsecs t t') ∧
    (PingMeasures t t' ↔ t.sec = t'.sec) ∧
    (SameTurn 1000 t t' →
      (LoopTime t t' ↔ t.micro ≤ (t'.sec - t.sec) * 1000 + t'.micro)) ∧
    (Along Paced.step RoundsApart (Paced.init start) ops ↔
      Along Paced.step SoonInSecond (Paced.init start) ops) := by
  refine ⟨?_, ?_, ?_, ?_⟩
  · exact tickMeasures_iff hunit hle
  · exact pingMeasures_iff hle
  · intro hturn
    exact loopTime_iff hturn
  · exact roundsApart_run start ops hforward

/-- A reading in the first second. -/
def Timespec.tenths (n : Fin 10) : Timespec := ⟨0, n.val * 100000000, by omega⟩

/-- Within one second, with rounds at 0.3 s and at 0.6 s. -/
theorem tickCount_measures_first_second :
    TickMeasures 1000 (.tenths 3) (.tenths 6) ∧
      PingMeasures (.tenths 3) (.tenths 6) ∧ LoopTime (.tenths 3) (.tenths 6) ∧
      Along Paced.step RoundsApart (Paced.init (.tenths 0))
        [.qsend (.tenths 3) .probe, .qsend (.tenths 4) .probe,
          .qsend (.tenths 6) .probe] := by
  obtain ⟨hticks, hping, hloop, hrounds⟩ := tickCount_measures_iff 1000
    (.tenths 3) (.tenths 6) (.tenths 0)
    [.qsend (.tenths 3) .probe, .qsend (.tenths 4) .probe,
      .qsend (.tenths 6) .probe] (by decide) (by decide) (by decide)
  have hturn : SameTurn 1000 (.tenths 3) (.tenths 6) := by decide
  exact ⟨hticks.mpr ⟨Or.inr rfl, hturn⟩, hping.mpr rfl,
    (hloop hturn).mpr (by decide), hrounds.mpr (by decide)⟩

/-- A nanosecond before the second ends the tick is 999999, and then 1000; and a
round at 0.9 s is followed by another one at 1 s. -/
theorem tickCount_falls_back :
    ¬(∀ t t' : Timespec, t.total ≤ t'.total → TickMeasures 1000 t t') ∧
    ¬ ∀ (start : Timespec) (ops : List PacedOp),
      Along Paced.step Forward (Paced.init start) ops →
        Along Paced.step RoundsApart (Paced.init start) ops := by
  constructor
  · intro h
    have hmono := (h ⟨0, 999999999, by decide⟩ ⟨1, 0, by decide⟩
      (by decide)).mono
    exact absurd hmono (by decide)
  · intro h
    have hrun := h ⟨0, 0, by decide⟩
      [.qsend ⟨0, 900000000, by decide⟩ .probe, .qsend ⟨1, 0, by decide⟩ .probe]
      (by decide)
    have hapart := hrun.2.1 (by decide) ⟨0, 900000000, by decide⟩ rfl
    exact absurd hapart (by decide)

end RoomSpeaker
