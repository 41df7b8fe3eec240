import RoomSpeaker.Foundation.Run
import RoomSpeaker.Model.Discovery
import RoomSpeaker.Verified.Discovery

/-!
# Which addresses a server answers with

A server looks at its interfaces in its first turn and in every 65536th after it.
What it finds counts only if the file it watches has changed since the last look; a
server without that file never answers.

## Main results

* `mem_udps` — the `Udper`s of a list of interfaces have its addresses.
* `udps_run` — the `Udper`s are those of the last look that counted.
* `silent_without_file` — without that file it has none.
* `beacon_answers_for` — the addresses a server answers with, in every run.
-/

namespace RoomSpeaker

open Foundation

/-! ## The interfaces -/

/-- An interface that is listed, with its address as a text. -/
def IfAddr.AnswersAs (i : IfAddr) (t : Text) : Prop :=
  i.name.chars.take 2 ≠ ['l', 'o'].map ch ∧
    ∃ x, i.addr = some x ∧ t = dottedText x.a x.b x.c x.d

theorem comma_notMem_dotted (a b c d : Byte) : ch ',' ∉ dotted a b c d :=
  notMem_dotted a b c d (by decide) (by decide) (by decide)

theorem dotted_ne_nil (a b c d : Byte) : dotted a b c d ≠ [] := by
  rw [dotted_eq]
  simp

/-- What is listed is the address, a comma and the name. -/
theorem listed_eq_some {i : IfAddr} {t : Text} (h : i.listed = some t) :
    i.name.chars.take 2 ≠ ['l', 'o'].map ch ∧ ∃ x, i.addr = some x ∧
      t.chars = dotted x.a x.b x.c x.d ++ ch ',' :: i.name.chars := by
  unfold IfAddr.listed at h
  split at h
  · next x haddr =>
      split at h
      · next hname =>
          refine ⟨hname, x, haddr, ?_⟩
          have hnonul : (0 : Byte) ∉
              dotted x.a x.b x.c x.d ++ ch ',' :: i.name.chars := by
            intro hmem
            rcases List.mem_append.mp hmem with hip | htail
            · exact (dottedText x.a x.b x.c x.d).nonul hip
            · rcases List.mem_cons.mp htail with hcomma | hrest
              · exact absurd hcomma (by decide)
              · exact i.name.nonul hrest
          rw [← Option.some.inj h]
          exact congrArg Text.chars (cstr_append_nul ⟨_, hnonul⟩ [])
      · cases h
  · cases h

theorem listed_isSome_iff (i : IfAddr) :
    (∃ t, i.listed = some t) ↔ ∃ t, i.AnswersAs t := by
  constructor
  · rintro ⟨t, ht⟩
    obtain ⟨hname, x, haddr, _⟩ := listed_eq_some ht
    exact ⟨_, hname, x, haddr, rfl⟩
  · rintro ⟨t, hname, x, haddr, _⟩
    apply Option.isSome_iff_exists.mp
    simp only [IfAddr.listed, haddr, if_pos hname]
    rfl

/-- A text is read whole where no terminator follows. -/
theorem chars_cstr (t : Text) : (cstr t.chars).chars = t.chars :=
  List.takeWhile_eq_self_iff.mpr (bne_of_notMem t.nonul)

/-- The token before the first comma. -/
theorem strtok_comma {s r : List Byte} (hne : s ≠ []) (hs : ch ',' ∉ s) :
    (strtok (ch ',') (s ++ ch ',' :: r)).1 = s := by
  cases s with
  | nil => exact absurd rfl hne
  | cons x s =>
      have hx : (x == ch ',') = false :=
        beq_eq_false_iff_ne.mpr fun heq => hs (heq ▸ List.mem_cons_self)
      have hdrop : (x :: s ++ ch ',' :: r).dropWhile (· == ch ',') =
          x :: s ++ ch ',' :: r := by
        rw [List.cons_append, List.dropWhile_cons, hx]
        rfl
      rw [strtok, hdrop]
      simp only [List.takeWhile_append_of_pos (bne_of_notMem hs), List.takeWhile_cons]
      simp

/-- The `Udper` made for a listed interface has its address. -/
theorem ip_new {i : IfAddr} {t : Text} (h : i.listed = some t) :
    i.AnswersAs (Udper.new t).ip := by
  obtain ⟨hname, x, haddr, ht⟩ := listed_eq_some h
  refine ⟨hname, x, haddr, ?_⟩
  have hcomma : strchr t.chars (ch ',') = some (dotted x.a x.b x.c x.d).length :=
    (strchr_eq_some_iff _ _ _).mpr
      ⟨_, _, (chars_cstr t).trans ht, comma_notMem_dotted x.a x.b x.c x.d, rfl⟩
  have htoken := strtok_comma (r := i.name.chars) (dotted_ne_nil x.a x.b x.c x.d)
    (comma_notMem_dotted x.a x.b x.c x.d)
  rw [Udper.new, if_pos (by rw [hcomma]; rfl)]
  apply Text.ext_chars
  simp only [ht, htoken]
  exact chars_cstr (dottedText x.a x.b x.c x.d)

theorem mem_listIface (m : KeyMap Text Unit) (i : IfAddr) (t : Text) :
    t ∈ (listIface m i).keys ↔ t ∈ m.keys ∨ i.listed = some t := by
  unfold listIface
  cases i.listed with
  | none => simp
  | some u =>
      rw [KeyMap.mem_keys, KeyMap.mem_keys, Option.some.injEq]
      constructor
      · rintro ⟨v, hv⟩
        rcases (m.mem_insert u () _).mp hv with heq | ⟨hold, _⟩
        · exact Or.inr (Prod.mk.inj heq).1.symm
        · exact Or.inl ⟨v, hold⟩
      · rintro (⟨v, hv⟩ | rfl)
        · by_cases htu : t = u
          · exact ⟨(), (m.mem_insert u () _).mpr (Or.inl (by rw [htu]))⟩
          · exact ⟨v, (m.mem_insert u () _).mpr (Or.inr ⟨hv, htu⟩)⟩
        · exact ⟨(), (m.mem_insert u () _).mpr (Or.inl rfl)⟩

/-- The texts that are listed. -/
theorem mem_getLocalIfaces (l : List IfAddr) (t : Text) :
    t ∈ (getLocalIfaces l).keys ↔ ∃ i ∈ l, i.listed = some t := by
  have hfold : ∀ (l : List IfAddr) (m : KeyMap Text Unit),
      t ∈ (l.foldl listIface m).keys ↔ t ∈ m.keys ∨ ∃ i ∈ l, i.listed = some t := by
    intro l
    induction l with
    | nil => simp
    | cons i l ih =>
        intro m
        rw [List.foldl_cons, ih, List.exists_mem_cons_iff, mem_listIface, or_assoc]
  rw [getLocalIfaces, hfold]
  simp [KeyMap.keys, KeyMap.empty]

/-- The `Udper`s of a list of interfaces. -/
def udpsOf (l : List IfAddr) : List Udper := (getLocalIfaces l).keys.map Udper.new

/-- They have the addresses of the interfaces that are listed, and no others. -/
theorem mem_udps (l : List IfAddr) (t : Text) :
    (∃ u ∈ udpsOf l, u.ip = t) ↔ ∃ i ∈ l, i.AnswersAs t := by
  constructor
  · rintro ⟨u, hu, rfl⟩
    obtain ⟨s, hs, rfl⟩ := List.mem_map.mp hu
    obtain ⟨i, hi, hlisted⟩ := (mem_getLocalIfaces l s).mp hs
    exact ⟨i, hi, ip_new hlisted⟩
  · rintro ⟨i, hi, hans⟩
    obtain ⟨s, hs⟩ := (listed_isSome_iff i).mpr ⟨t, hans⟩
    refine ⟨Udper.new s, List.mem_map_of_mem ((mem_getLocalIfaces l s).mpr ⟨i, hi, hs⟩), ?_⟩
    obtain ⟨_, x, haddr, hx⟩ := ip_new hs
    obtain ⟨_, y, haddr', hy⟩ := hans
    rw [haddr, Option.some.injEq] at haddr'
    rw [hx, hy, haddr']

/-! ## When the interfaces are looked at -/

/-- The turns that look at the interfaces, from the `n`-th turn on. -/
def looks : Nat → List BeaconIn → List BeaconIn
  | _, [] => []
  | n, i :: is => if n % 65536 = 0 then i :: looks (n + 1) is else looks (n + 1) is

/-- The looks that count: the file has another time than at the look before. -/
def rescans : Int → List BeaconIn → List BeaconIn
  | _, [] => []
  | prev, i :: is =>
      if i.mtime ≠ prev then i :: rescans i.mtime is else rescans prev is

/-- `hmin` in the `n`-th turn. -/
def hminAt (n : Nat) : BitVec 32 := BitVec.ofNat 32 (0xFFFF + n)

theorem hminAt_succ (n : Nat) : hminAt n + 1 = hminAt (n + 1) := by
  show BitVec.ofNat 32 (0xFFFF + n) + BitVec.ofNat 32 1 = BitVec.ofNat 32 (0xFFFF + n + 1)
  rw [← BitVec.ofNat_add]

theorem beacon_due_iff {b : Beacon} {n : Nat} (h : b.hmin = hminAt n) :
    b.due = true ↔ n % 65536 = 0 := by
  have hmask : (hminAt n &&& 0xFFFF).toNat = (0xFFFF + n) % 4294967296 % 65536 := by
    rw [BitVec.toNat_and, hminAt, BitVec.toNat_ofNat]
    exact Nat.and_two_pow_sub_one_eq_mod _ 16
  rw [Beacon.due, decide_eq_true_eq, h, ← BitVec.toNat_inj, hmask]
  show (0xFFFF + n) % 4294967296 % 65536 = 65535 ↔ n % 65536 = 0
  omega

theorem udps_reInterface (b : Beacon) (i : BeaconIn) :
    (b.reInterface i).udps = if i.mtime ≠ b.prev then udpsOf i.ifaddrs else b.udps := by
  unfold Beacon.reInterface
  split
  · rfl
  · rfl

theorem prev_reInterface (b : Beacon) (i : BeaconIn) :
    (b.reInterface i).prev = i.mtime := by
  unfold Beacon.reInterface
  split
  · rfl
  · next h => exact (not_not.mp h).symm

theorem udps_step (b : Beacon) (i : BeaconIn) : (b.step i).udps = (b.refresh i).udps :=
  rfl

theorem prev_step (b : Beacon) (i : BeaconIn) : (b.step i).prev = (b.refresh i).prev :=
  rfl

/-- The `Udper`s are those of the last look that counted. -/
theorem udps_run (is : List BeaconIn) :
    ∀ (n : Nat) (b : Beacon), b.hmin = hminAt n →
      (run Beacon.step b is).udps =
        ((rescans b.prev (looks n is)).getLast?.map fun i => udpsOf i.ifaddrs).getD
          b.udps := by
  induction is with
  | nil => intro n b _; rfl
  | cons i is ih =>
      intro n b hb
      have hnext : (b.step i).hmin = hminAt (n + 1) := by
        rw [← hminAt_succ, ← hb]
        rfl
      rw [run_cons, ih (n + 1) (b.step i) hnext, looks]
      by_cases hdue : n % 65536 = 0
      · have hrefresh : b.refresh i = b.reInterface i := if_pos ((beacon_due_iff hb).mpr hdue)
        rw [if_pos hdue, rescans, prev_step, udps_step, hrefresh, prev_reInterface,
          udps_reInterface]
        by_cases hnew : i.mtime ≠ b.prev
        · rw [if_pos hnew, if_pos hnew, List.getLast?_cons]
          cases (rescans i.mtime (looks (n + 1) is)).getLast? <;> rfl
        · rw [if_neg hnew, if_neg hnew, not_not.mp hnew]
      · have hrefresh : b.refresh i = b := if_neg (mt (beacon_due_iff hb).mp hdue)
        rw [if_neg hdue, prev_step, udps_step, hrefresh]

/-! ## What is sent -/

/-- A reply is that of one of the `Udper`s after the look. -/
theorem mem_replies {b : Beacon} {i : BeaconIn} {d : List Byte}
    (h : d ∈ b.replies i) :
    ∃ u ∈ (b.refresh i).udps, d = (replyText i.hostname u.ip).chars := by
  obtain ⟨⟨u, r⟩, hmem, hsome⟩ := List.mem_filterMap.mp h
  obtain ⟨x, _, hreply⟩ := Option.bind_eq_some_iff.mp hsome
  exact ⟨u, (List.of_mem_zip hmem).1, listenAndRespond_some hreply⟩

/-- Every socket has the request. -/
def BeaconIn.Asks (i : BeaconIn) (n : Nat) : Prop :=
  i.requests = List.replicate n (some (spkDisc, []))

theorem mem_replies_of_asks {b : Beacon} {i : BeaconIn}
    (h : i.Asks (b.refresh i).udps.length) {u : Udper} (hu : u ∈ (b.refresh i).udps) :
    (replyText i.hostname u.ip).chars ∈ b.replies i := by
  apply List.mem_filterMap.mpr
  refine ⟨(u, some (spkDisc, [])), ?_, listenAndRespond_spkDisc i.hostname u.ip⟩
  obtain ⟨j, hj, rfl⟩ := List.mem_iff_getElem.mp hu
  rw [h, List.mem_iff_getElem]
  exact ⟨j, by simpa using hj, by simp⟩

/-! ## Runs -/

/-- The last look of a run that counted. -/
def lastRescan (is : List BeaconIn) : Option BeaconIn :=
  (rescans 0 (looks 0 is)).getLast?

/-- The addresses a server has after a run. -/
theorem udps_init_run (is : List BeaconIn) (t : Text) :
    (∃ u ∈ (run Beacon.step Beacon.init is).udps, u.ip = t) ↔
      ∃ j ∈ lastRescan is, ∃ x ∈ j.ifaddrs, x.AnswersAs t := by
  rw [udps_run is 0 Beacon.init rfl]
  show (∃ u ∈ ((lastRescan is).map fun i => udpsOf i.ifaddrs).getD [], u.ip = t) ↔ _
  cases lastRescan is with
  | none => simp
  | some j => simp [mem_udps]

/-- Without the file that is watched no look counts. -/
theorem lastRescan_of_missing {is : List BeaconIn} (h : ∀ i ∈ is, i.mtime = 0) :
    lastRescan is = none := by
  have hlooks : ∀ n, ∀ i ∈ looks n is, i.mtime = 0 := by
    induction is with
    | nil => simp [looks]
    | cons i is ih =>
        intro n j hj
        have hrest := ih fun j hj => h j (List.mem_cons_of_mem i hj)
        rw [looks] at hj
        split at hj
        · rcases List.mem_cons.mp hj with rfl | hj
          · exact h j List.mem_cons_self
          · exact hrest (n + 1) j hj
        · exact hrest (n + 1) j hj
  have hnone : ∀ l : List BeaconIn, (∀ i ∈ l, i.mtime = 0) → rescans 0 l = [] := by
    intro l
    induction l with
    | nil => intro _; rfl
    | cons i l ih =>
        intro hl
        rw [rescans, if_neg (not_not.mpr (hl i List.mem_cons_self))]
        exact ih fun j hj => hl j (List.mem_cons_of_mem i hj)
  rw [lastRescan, hnone _ (hlooks 0)]
  rfl

/-- So a server without it never answers. -/
theorem silent_without_file (is : List BeaconIn) (h : ∀ i ∈ is, i.mtime = 0)
    (t : Text) : ¬∃ u ∈ (run Beacon.step Beacon.init is).udps, u.ip = t := by
  rw [udps_init_run, lastRescan_of_missing h]
  simp

/--
**The addresses a server answers with.**

In every turn of every run, whatever is on the sockets, the server sends no address
but those its interfaces had at the last look that counted, this turn's included;
and if every socket has the request it sends each of them, with its host name.
-/
theorem beacon_answers_for (is : List BeaconIn) (i : BeaconIn) :
    (∀ d ∈ (run Beacon.step Beacon.init is).replies i,
      ∃ j ∈ lastRescan (is ++ [i]), ∃ x ∈ j.ifaddrs, ∃ t, x.AnswersAs t ∧
        d = (replyText i.hostname t).chars) ∧
    (i.Asks (run Beacon.step Beacon.init (is ++ [i])).udps.length →
      ∀ j ∈ lastRescan (is ++ [i]), ∀ x ∈ j.ifaddrs, ∀ t, x.AnswersAs t →
        (replyText i.hostname t).chars ∈
          (run Beacon.step Beacon.init is).replies i) := by
  have hudps : (run Beacon.step Beacon.init (is ++ [i])).udps =
      ((run Beacon.step Beacon.init is).refresh i).udps := by
    rw [run_append]
    rfl
  have hmem := fun t => udps_init_run (is ++ [i]) t
  rw [hudps] at hmem ⊢
  constructor
  · intro d hd
    obtain ⟨u, hu, rfl⟩ := mem_replies hd
    obtain ⟨j, hj, x, hx, hans⟩ := (hmem u.ip).mp ⟨u, hu, rfl⟩
    exact ⟨j, hj, x, hx, u.ip, hans, rfl⟩
  · intro hasks j hj x hx t hans
    obtain ⟨u, hu, rfl⟩ := (hmem t).mpr ⟨j, hj, x, hx, hans⟩
    exact mem_replies_of_asks hasks hu

end RoomSpeaker
