import RoomSpeaker.Foundation.Run

/-!
# Runs with a history

What a system has done is not part of its state.  A history is a list of
observations that grows with the steps; an invariant may speak of the state and
of the histories so far.

## Main results

* `trace_inv` — an invariant over the state and two histories, kept by the steps
  that meet a condition, holds at the end of a run along it of the two traces.
* `sublist_trace` — if every step observes no more than another observation does,
  the trace is a part of the other one, in order.
* `sublist_of_reads` — a list read off another one at increasing places is a part
  of it, in order; `prefix_of_reads` — and its beginning when no place is left
  out.
-/

namespace RoomSpeaker.Foundation

variable {σ ι α β : Type*} {step : σ → ι → σ}

/-- The history rule: `f` and `g` are what a step adds to the two histories. -/
theorem trace_inv {C : σ → ι → Prop} {f : σ → ι → List α} {g : σ → ι → List β}
    {I : σ → List α → List β → Prop}
    (hkeep : ∀ s i xs ys, I s xs ys → C s i →
      I (step s i) (xs ++ f s i) (ys ++ g s i)) (is : List ι) :
    ∀ (s : σ) (xs : List α) (ys : List β), I s xs ys → Along step C s is →
      I (run step s is) (xs ++ trace step f s is) (ys ++ trace step g s is) := by
  induction is with
  | nil =>
      intro s xs ys hI _
      simpa only [run_nil, trace, List.append_nil] using hI
  | cons i is ih =>
      intro s xs ys hI hC
      have hrest := ih (step s i) _ _ (hkeep s i xs ys hI hC.1) hC.2
      simpa only [run_cons, trace, List.append_assoc] using hrest

/-- The rule from the start of the histories. -/
theorem trace_inv_nil {C : σ → ι → Prop} {f : σ → ι → List α}
    {g : σ → ι → List β} {I : σ → List α → List β → Prop}
    (hkeep : ∀ s i xs ys, I s xs ys → C s i →
      I (step s i) (xs ++ f s i) (ys ++ g s i)) {is : List ι} {s : σ}
    (hI : I s [] []) (hC : Along step C s is) :
    I (run step s is) (trace step f s is) (trace step g s is) :=
  trace_inv hkeep is s [] [] hI hC

/-- What is observed less at every step is observed less in the run. -/
theorem sublist_trace {C : σ → ι → Prop} {f g : σ → ι → List α}
    (hsub : ∀ s i, C s i → (f s i).Sublist (g s i)) (is : List ι) :
    ∀ s : σ, Along step C s is →
      (trace step f s is).Sublist (trace step g s is) := by
  induction is with
  | nil => intro s _; exact List.Sublist.refl _
  | cons i is ih => intro s hC; exact (hsub s i hC.1).append (ih _ hC.2)

/-- What is the same at every step is the same in the run. -/
theorem trace_congr {C : σ → ι → Prop} {f g : σ → ι → List α}
    (hsame : ∀ s i, C s i → f s i = g s i) (is : List ι) :
    ∀ s : σ, Along step C s is → trace step f s is = trace step g s is := by
  induction is with
  | nil => intro s _; rfl
  | cons i is ih => intro s hC; rw [trace, trace, hsame s i hC.1, ih _ hC.2]

/-- A view of the observations is observed step by step. -/
theorem map_trace {f : σ → ι → List α} (v : α → β) (is : List ι) :
    ∀ s : σ, (trace step f s is).map v =
      trace step (fun s i => (f s i).map v) s is := by
  induction is with
  | nil => intro s; rfl
  | cons i is ih => intro s; simp only [trace, List.map_append, ih]

/-- What is picked from the observations is picked step by step. -/
theorem filterMap_trace {f : σ → ι → List α} (v : α → Option β) (is : List ι) :
    ∀ s : σ, (trace step f s is).filterMap v =
      trace step (fun s i => (f s i).filterMap v) s is := by
  induction is with
  | nil => intro s; rfl
  | cons i is ih => intro s; simp only [trace, List.filterMap_append, ih]

/-- What the observations stand for is observed step by step. -/
theorem flatMap_trace {f : σ → ι → List α} (v : α → List β) (is : List ι) :
    ∀ s : σ, (trace step f s is).flatMap v =
      trace step (fun s i => (f s i).flatMap v) s is := by
  induction is with
  | nil => intro s; rfl
  | cons i is ih => intro s; simp only [trace, List.flatMap_append, ih]

/-- What is observed in a run is observed at one of its steps. -/
theorem of_mem_trace {f : σ → ι → List α} {x : α} (is : List ι) :
    ∀ s : σ, x ∈ trace step f s is →
      ∃ before i after, is = before ++ i :: after ∧ x ∈ f (run step s before) i := by
  induction is with
  | nil =>
      intro s hx
      cases hx
  | cons i is ih =>
      intro s hx
      rcases List.mem_append.mp hx with hhead | htail
      · exact ⟨[], i, is, rfl, hhead⟩
      · obtain ⟨before, j, after, rfl, hmem⟩ := ih (step s i) htail
        exact ⟨i :: before, j, after, rfl, hmem⟩

/-- What is read at increasing places is part of the list, in order. -/
theorem sublist_of_reads {xs ys : List α} {ns : List Nat}
    (hns : ns.Pairwise (· < ·)) (hreads : xs.map some = ns.map fun n => ys[n]?) :
    xs.Sublist ys := by
  have hlt : ∀ n ∈ ns, n < ys.length := by
    intro n hn
    have hmem : ys[n]? ∈ xs.map some := by
      rw [hreads]
      exact List.mem_map_of_mem hn
    obtain ⟨x, _, hx⟩ := List.mem_map.mp hmem
    exact (List.getElem?_eq_some_iff.mp hx.symm).1
  have hxs : xs = (ns.pmap Fin.mk hlt).map (ys[·]) := by
    apply List.map_injective_iff.mpr fun _ _ => Option.some.inj
    rw [hreads, List.map_map, List.map_pmap, ← List.pmap_eq_map hlt]
    apply List.pmap_congr_left
    intro n _ _ hn
    exact List.getElem?_eq_getElem hn
  rw [hxs]
  apply List.map_getElem_sublist
  rw [List.pairwise_pmap]
  exact hns.imp fun hmn _ _ => hmn

/-- What is read at the first places, one after the other, is the beginning of
the list. -/
theorem prefix_of_reads {xs ys : List α} {k : Nat}
    (hreads : xs.map some = (List.range k).map fun n => ys[n]?) : xs <+: ys := by
  have hlen : xs.length = k := by
    have hlens := congrArg List.length hreads
    rwa [List.length_map, List.length_map, List.length_range] at hlens
  rw [List.prefix_iff_getElem?]
  intro n hn
  have hplace := congrArg (fun l => l[n]?) hreads
  simp only [List.getElem?_map, List.getElem?_range (hlen ▸ hn),
    List.getElem?_eq_getElem hn, Option.map_some, Option.some.injEq] at hplace
  exact hplace.symm

end RoomSpeaker.Foundation
