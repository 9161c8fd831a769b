import Mathlib.Data.List.Nodup
import Mathlib.Data.List.Perm.Subperm
import Mathlib.Data.List.Range
import Mathlib.Order.Bounds.Basic
import SqlBuilder.JoinGraph.ShortestPaths

/-!
# The search finds shortest ways

`Way next o n w` says that `n` hops lead from `o` to `w`. The search from `o` gives `w` the distance
`n` exactly when `n` is the least number of hops (`search_distance_iff`), and the vertex before `w`
lies one hop nearer (`search_previous`): it is the least vertex that does (`search_previous_iff`).

One `Invariant` carries everything. The entries taken and then those queued ascend, so an entry
taken later is never less; the distances queued differ by at most one, so a vertex that has a
distance never gets a shorter one. That makes the look at all hops of a vertex simple: it gives
the next distance to the neighbours without one and leaves all others alone (`Relaxed`). A `Round`
is that look after the first entry was taken, and has one lemma for each part of the invariant.
-/

namespace SqlBuilder.ShortestPaths

/-! ## The order of the queue -/

theorem before_iff {a b : Nat × Nat} :
    before a b = true ↔ a.1 < b.1 ∨ a.1 = b.1 ∧ a.2 < b.2 := by
  simp [before]

theorem before_irrefl (a : Nat × Nat) : before a a = false := by
  simp [before]

theorem before_trans {a b c : Nat × Nat} (hab : before a b = true) (hbc : before b c = true) :
    before a c = true := by
  rw [before_iff] at *
  omega

theorem before_asymm {a b : Nat × Nat} (h : before a b = true) : before b a = false := by
  rw [Bool.eq_false_iff, ne_eq, before_iff]
  rw [before_iff] at h
  omega

theorem before_of_ne {a b : Nat × Nat} (hne : a ≠ b) (h : before a b = false) :
    before b a = true := by
  rw [Bool.eq_false_iff, ne_eq, before_iff] at h
  rw [before_iff]
  by_contra hba
  exact hne (Prod.ext (by omega) (by omega))

/-- Entries ascend. -/
abbrev Ascending (entries : List (Nat × Nat)) : Prop :=
  entries.Pairwise fun a b => before a b = true

theorem mem_enqueue {e a : Nat × Nat} : ∀ {queue : List (Nat × Nat)},
    a ∈ enqueue e queue ↔ a = e ∨ a ∈ queue
  | [] => by simp [enqueue]
  | first :: rest => by
    unfold enqueue
    split_ifs
    · exact List.mem_cons
    · rw [List.mem_cons, mem_enqueue, List.mem_cons]
      tauto

theorem ascending_enqueue {e : Nat × Nat} : ∀ {queue : List (Nat × Nat)}, Ascending queue →
    e ∉ queue → Ascending (enqueue e queue)
  | [], _, _ => List.pairwise_singleton _ _
  | first :: rest, hq, he => by
    obtain ⟨hfirst, hrest⟩ := List.pairwise_cons.mp hq
    rw [List.mem_cons, not_or] at he
    unfold enqueue
    split_ifs with h
    · refine List.pairwise_cons.mpr ⟨fun a ha => ?_, hq⟩
      rcases List.mem_cons.mp ha with rfl | ha
      · exact h
      · exact before_trans h (hfirst a ha)
    · refine List.pairwise_cons.mpr ⟨fun a ha => ?_, ascending_enqueue hrest he.2⟩
      rcases mem_enqueue.mp ha with rfl | ha
      · exact before_of_ne he.1 (Bool.eq_false_iff.mpr h)
      · exact hfirst a ha

/-! ## Looking at the hops of a vertex -/

/-- What looking at hops from `u`, at distance `d`, to the vertices `ws` does. -/
structure Relaxed (u d : Nat) (ws : List Nat) (s s' : Search) : Prop where
  taken : s'.taken = s.taken
  distance : ∀ w, s'.distance w =
    if w ∈ ws ∧ s.distance w = none then some (d + 1) else s.distance w
  previous : ∀ w, s'.previous w =
    if w ∈ ws ∧ s.distance w = none then some u else s.previous w
  mem_queue : ∀ e, e ∈ s'.queue ↔
    e ∈ s.queue ∨ e.1 = d + 1 ∧ e.2 ∈ ws ∧ s.distance e.2 = none
  ascending : Ascending s'.queue

section Relax

variable {u d w : Nat} {ws ws' : List Nat} {s s' s'' : Search}

theorem relax_of_known {x : Nat} (hw : s.distance w = some x) (hx : x ≤ d + 1) :
    s.relax u d w = s := by
  have hnot : improves (d + 1) (s.distance w) = false := by
    rw [hw, improves, decide_eq_false_iff_not]
    omega
  rw [Search.relax, hnot]
  rfl

theorem relax_of_unknown (hw : s.distance w = none) :
    s.relax u d w =
      { s with
        distance := fun a => if a = w then some (d + 1) else s.distance a
        previous := fun a => if a = w then some u else s.previous a
        queue := enqueue (d + 1, w) s.queue } := by
  rw [Search.relax, hw]
  rfl

/-- One hop, when no known distance is more than the next one: none improves. -/
theorem relaxed_relax (hle : ∀ x, s.distance w = some x → x ≤ d + 1)
    (hqueued : ∀ e ∈ s.queue, s.distance e.2 ≠ none) (hascending : Ascending s.queue) :
    Relaxed u d [w] s (s.relax u d w) := by
  cases hw : s.distance w with
  | some x =>
    have hknown : ∀ a, ¬ (a ∈ [w] ∧ s.distance a = none) := by
      rintro a ⟨ha, hnone⟩
      rw [List.mem_singleton.mp ha, hw] at hnone
      exact absurd hnone (by simp)
    rw [relax_of_known hw (hle x hw)]
    exact ⟨rfl, fun a => (if_neg (hknown a)).symm, fun a => (if_neg (hknown a)).symm,
      fun e => ⟨.inl, fun h => h.resolve_right fun hnew => hknown e.2 hnew.2⟩, hascending⟩
  | none =>
    have hnew : (d + 1, w) ∉ s.queue := fun hmem => hqueued _ hmem hw
    have hself : ∀ a, (a ∈ [w] ∧ s.distance a = none) ↔ a = w := by
      intro a
      rw [List.mem_singleton]
      exact ⟨And.left, fun ha => ⟨ha, ha ▸ hw⟩⟩
    rw [relax_of_unknown hw]
    refine ⟨rfl, fun a => ?_, fun a => ?_, fun e => ?_, ascending_enqueue hascending hnew⟩
    · simp only [hself]
    · simp only [hself]
    · rw [mem_enqueue, hself, Prod.ext_iff, or_comm]

/-- Hops that are looked at in turn are looked at together. -/
theorem Relaxed.trans (h : Relaxed u d ws s s') (h' : Relaxed u d ws' s' s'') :
    Relaxed u d (ws ++ ws') s s'' := by
  refine ⟨h'.taken.trans h.taken, fun a => ?_, fun a => ?_, fun e => ?_, h'.ascending⟩
  · rw [h'.distance, h.distance]
    by_cases ha : a ∈ ws <;> by_cases hnone : s.distance a = none <;> simp [ha, hnone]
  · rw [h'.previous, h.previous, h.distance]
    by_cases ha : a ∈ ws <;> by_cases hnone : s.distance a = none <;> simp [ha, hnone]
  · rw [h'.mem_queue, h.mem_queue, h.distance]
    by_cases ha : e.2 ∈ ws <;> by_cases hnone : s.distance e.2 = none <;> simp [ha, hnone]

theorem Relaxed.le (h : Relaxed u d ws s s') (hle : ∀ w x, s.distance w = some x → x ≤ d + 1) :
    ∀ w x, s'.distance w = some x → x ≤ d + 1 := by
  intro w x hx
  rw [h.distance] at hx
  split_ifs at hx
  · exact (Option.some.inj hx).ge
  · exact hle w x hx

theorem Relaxed.queued (h : Relaxed u d ws s s') (hqueued : ∀ e ∈ s.queue, s.distance e.2 ≠ none) :
    ∀ e ∈ s'.queue, s'.distance e.2 ≠ none := by
  intro e he
  rw [h.distance]
  rcases (h.mem_queue e).mp he with hold | ⟨-, hnew⟩
  · rw [if_neg fun hnone => hqueued e hold hnone.2]
    exact hqueued e hold
  · rw [if_pos hnew]
    simp

/-- **Neighbours without a distance get the next one**, all others keep theirs. -/
theorem relaxed_foldl (ws : List Nat) (s : Search)
    (hle : ∀ w x, s.distance w = some x → x ≤ d + 1)
    (hqueued : ∀ e ∈ s.queue, s.distance e.2 ≠ none) (hascending : Ascending s.queue) :
    Relaxed u d ws s (ws.foldl (Search.relax u d) s) := by
  induction ws generalizing s with
  | nil => exact ⟨rfl, fun _ => by simp, fun _ => by simp, fun _ => by simp, hascending⟩
  | cons w ws ih =>
    have hfirst : Relaxed u d [w] s (s.relax u d w) := relaxed_relax (hle w) hqueued hascending
    exact hfirst.trans (ih _ (hfirst.le hle) (hfirst.queued hqueued) hfirst.ascending)

end Relax

/-! ## The invariant -/

/-- **What every round of the search keeps**, from the vertex `o`, among `count` vertices. -/
structure Invariant (count : Nat) (next : Nat → List Nat) (o : Nat) (s : Search) : Prop where
  /-- What was taken, in this order, and then what is queued. -/
  ascending : Ascending (s.taken.reverse ++ s.queue)
  level : ∀ a ∈ s.queue, ∀ b ∈ s.queue, a.1 ≤ b.1 + 1
  /-- A vertex has a distance exactly when it was queued with it. -/
  known : ∀ w d, s.distance w = some d ↔ (d, w) ∈ s.taken ∨ (d, w) ∈ s.queue
  origin : s.distance o = some 0
  bounded : ∀ w d, s.distance w = some d → w < count
  /-- No distance is more than the number of entries taken. -/
  queued_le : ∀ e ∈ s.queue, e.1 ≤ s.taken.length
  taken_lt : ∀ e ∈ s.taken, e.1 < s.taken.length
  /-- The neighbours of a vertex taken are at most one hop farther. -/
  expanded : ∀ d u, (d, u) ∈ s.taken → ∀ w ∈ next u, ∃ x, s.distance w = some x ∧ x ≤ d + 1
  /-- The vertex before another was the first of its neighbours to be taken. -/
  linked : ∀ w u, s.previous w = some u → ∃ d, (d, u) ∈ s.taken ∧ w ∈ next u ∧
    s.distance w = some (d + 1) ∧ ∀ e ∈ s.taken, w ∈ next e.2 → before e (d, u) = false
  rooted : ∀ w d, s.distance w = some d → w ≠ o → ∃ u, s.previous w = some u

variable {count : Nat} {next : Nat → List Nat} {o n d u w : Nat} {s : Search}

theorem Invariant.start (ho : o < count) : Invariant count next o (.start o) where
  ascending := List.pairwise_singleton _ _
  level := by simp [Search.start]
  known := by
    intro w d
    simp only [Search.start, List.not_mem_nil, List.mem_singleton, Prod.mk.injEq, false_or]
    split_ifs with h
    · rw [Option.some.injEq, eq_comm]
      exact ⟨fun hd => ⟨hd, h⟩, fun hd => hd.1⟩
    · exact ⟨fun hn => absurd hn (by simp), fun hd => absurd hd.2 h⟩
  origin := if_pos rfl
  bounded := by
    intro w d h
    simp only [Search.start] at h
    split_ifs at h with hw
    rwa [hw]
  queued_le := by simp [Search.start]
  taken_lt := by simp [Search.start]
  expanded := by simp [Search.start]
  linked := by simp [Search.start]
  rooted := by
    intro w d h hw
    simp [Search.start, hw] at h

/-- A queued entry is never stale: its vertex has the distance that it was queued with. -/
theorem Invariant.not_stale (hs : Invariant count next o s) (h : (d, u) ∈ s.queue) :
    s.isStale (d, u) = false := by
  have hdist := (hs.known u d).mpr (.inr h)
  simp [Search.isStale, hdist]

/-- No distance is more than one hop beyond the first entry of the queue. -/
theorem Invariant.distance_le (hs : Invariant count next o s) {rest : List (Nat × Nat)}
    (hqueue : s.queue = (d, u) :: rest) : ∀ w x, s.distance w = some x → x ≤ d + 1 := by
  intro w x hx
  have hfirst : (d, u) ∈ s.queue := by simp [hqueue]
  rcases (hs.known w x).mp hx with htaken | hqueued
  · have hbefore := (List.pairwise_append.mp hs.ascending).2.2 (x, w)
      (List.mem_reverse.mpr htaken) (d, u) hfirst
    rw [before_iff] at hbefore
    omega
  · exact hs.level _ hqueued _ hfirst

theorem Search.step_eq {rest : List (Nat × Nat)} (hqueue : s.queue = (d, u) :: rest)
    (hstale : s.isStale (d, u) = false) :
    s.step next = (next u).foldl (Search.relax u d)
      { s with queue := rest, taken := (d, u) :: s.taken } := by
  have hsame : Search.isStale { s with queue := rest, taken := (d, u) :: s.taken } (d, u) = false :=
    hstale
  rw [Search.step, hqueue]
  simp only [hsame, Bool.false_eq_true, if_false]

/-! ## One round -/

/-- One round takes the first entry `(d, u)` of the queue and looks at the hops from `u`. -/
structure Round (next : Nat → List Nat) (d u : Nat) (rest : List (Nat × Nat)) (s s' : Search) :
    Prop where
  queue : s.queue = (d, u) :: rest
  relaxed : Relaxed u d (next u) { s with queue := rest, taken := (d, u) :: s.taken } s'

section Round

variable {rest : List (Nat × Nat)} {s' : Search} {x : Nat} {e : Nat × Nat}

theorem Round.first_mem (hr : Round next d u rest s s') : (d, u) ∈ s.queue := by
  simp [hr.queue]

theorem Round.rest_mem (hr : Round next d u rest s s') (he : e ∈ rest) : e ∈ s.queue := by
  simp [hr.queue, he]

theorem Round.taken_eq (hr : Round next d u rest s s') : s'.taken = (d, u) :: s.taken :=
  hr.relaxed.taken

/-- A vertex that had a distance keeps it. -/
theorem Round.kept (hr : Round next d u rest s s') (hx : s.distance w = some x) :
    s'.distance w = some x := by
  rw [hr.relaxed.distance, if_neg (by simp [hx]), hx]

variable (hs : Invariant count next o s) (hr : Round next d u rest s s')

include hs hr

theorem Round.first_distance : s.distance u = some d := (hs.known u d).mpr (.inr hr.first_mem)

theorem Round.taken_before (he : e ∈ s.taken) : before e (d, u) = true :=
  (List.pairwise_append.mp hs.ascending).2.2 e (List.mem_reverse.mpr he) (d, u) hr.first_mem

/-- What is queued after the round comes after the entry taken: it is an old entry or one hop
beyond. -/
theorem Round.queued_after (he : e ∈ s'.queue) : before (d, u) e = true ∧ e.1 ≤ d + 1 := by
  rcases (hr.relaxed.mem_queue e).mp he with hold | ⟨hd, -, -⟩
  · have hascending := (List.pairwise_append.mp hs.ascending).2.1
    rw [hr.queue] at hascending
    exact ⟨(List.pairwise_cons.mp hascending).1 e hold,
      hs.level e (hr.rest_mem hold) _ hr.first_mem⟩
  · rw [before_iff]
    omega

theorem Round.ascending : Ascending (s'.taken.reverse ++ s'.queue) := by
  rw [hr.taken_eq, List.reverse_cons, List.append_assoc, List.singleton_append, Ascending,
    List.pairwise_append, List.pairwise_cons]
  refine ⟨(List.pairwise_append.mp hs.ascending).1,
    ⟨fun e he => (hr.queued_after hs he).1, hr.relaxed.ascending⟩, fun a ha b hb => ?_⟩
  have had := hr.taken_before hs (List.mem_reverse.mp ha)
  rcases List.mem_cons.mp hb with rfl | hb
  · exact had
  · exact before_trans had (hr.queued_after hs hb).1

theorem Round.level : ∀ a ∈ s'.queue, ∀ b ∈ s'.queue, a.1 ≤ b.1 + 1 := by
  intro a ha b hb
  have ha := (hr.queued_after hs ha).2
  have hb := (hr.queued_after hs hb).1
  rw [before_iff] at hb
  omega

theorem Round.known (w x : Nat) :
    s'.distance w = some x ↔ (x, w) ∈ s'.taken ∨ (x, w) ∈ s'.queue := by
  have hold := hs.known w x
  rw [hr.queue, List.mem_cons, Prod.mk.injEq] at hold
  rw [hr.relaxed.distance, hr.taken_eq, hr.relaxed.mem_queue, List.mem_cons, Prod.mk.injEq]
  simp only
  by_cases hw : w ∈ next u ∧ s.distance w = none
  · rw [if_pos hw, Option.some.injEq]
    rw [hw.2] at hold
    simp only [hw.1, hw.2, and_self, and_true]
    simp only [reduceCtorEq, false_iff, not_or] at hold
    constructor
    · exact fun h => .inr (.inr h.symm)
    · rintro ((h | h) | h | h)
      · exact absurd h hold.2.1
      · exact absurd h hold.1
      · exact absurd h hold.2.2
      · exact h.symm
  · rw [if_neg hw, hold]
    constructor
    · rintro (htaken | hhead | hrest)
      · exact .inl (.inr htaken)
      · exact .inl (.inl hhead)
      · exact .inr (.inl hrest)
    · rintro ((hhead | htaken) | hrest | ⟨-, hfresh⟩)
      · exact .inr (.inl hhead)
      · exact .inl htaken
      · exact .inr (.inr hrest)
      · exact absurd hfresh hw

theorem Round.queued_le : ∀ e ∈ s'.queue, e.1 ≤ s'.taken.length := by
  intro e he
  have hd : d ≤ s.taken.length := hs.queued_le _ hr.first_mem
  rw [hr.taken_eq, List.length_cons]
  have := (hr.queued_after hs he).2
  omega

theorem Round.taken_lt : ∀ e ∈ s'.taken, e.1 < s'.taken.length := by
  intro e he
  rw [hr.taken_eq, List.mem_cons] at he
  rw [hr.taken_eq, List.length_cons]
  rcases he with rfl | he
  · exact Nat.lt_succ_of_le (hs.queued_le _ hr.first_mem)
  · exact Nat.lt_succ_of_lt (hs.taken_lt e he)

theorem Round.expanded (x v : Nat) (hv : (x, v) ∈ s'.taken) :
    ∀ w ∈ next v, ∃ y, s'.distance w = some y ∧ y ≤ x + 1 := by
  intro w hw
  rw [hr.taken_eq, List.mem_cons, Prod.mk.injEq] at hv
  rcases hv with ⟨rfl, rfl⟩ | hv
  · rw [hr.relaxed.distance]
    split_ifs with h
    · exact ⟨_, rfl, le_refl _⟩
    · rcases hknown : s.distance w with _ | y
      · exact absurd ⟨hw, hknown⟩ h
      · exact ⟨y, rfl, hs.distance_le hr.queue w y hknown⟩
  · obtain ⟨y, hy, hyx⟩ := hs.expanded x v hv w hw
    exact ⟨y, hr.kept hy, hyx⟩

theorem Round.linked (w v : Nat) (h : s'.previous w = some v) :
    ∃ x, (x, v) ∈ s'.taken ∧ w ∈ next v ∧ s'.distance w = some (x + 1) ∧
      ∀ e ∈ s'.taken, w ∈ next e.2 → before e (x, v) = false := by
  rw [hr.relaxed.previous] at h
  split_ifs at h with hw
  · obtain rfl := Option.some.inj h
    refine ⟨d, by simp [hr.taken_eq], hw.1, by rw [hr.relaxed.distance, if_pos hw],
      fun e he hwe => ?_⟩
    rw [hr.taken_eq, List.mem_cons] at he
    rcases he with rfl | he
    · exact before_irrefl _
    · -- a neighbour taken before would have given `w` a distance
      obtain ⟨y, hy, -⟩ := hs.expanded e.1 e.2 he w hwe
      exact absurd (hw.2.symm.trans hy) (by simp)
  · obtain ⟨x, hx, hwv, hwx, hearliest⟩ := hs.linked w v h
    refine ⟨x, by simp [hr.taken_eq, hx], hwv, hr.kept hwx, fun e he hwe => ?_⟩
    rw [hr.taken_eq, List.mem_cons] at he
    rcases he with rfl | he
    · exact before_asymm (hr.taken_before hs hx)
    · exact hearliest e he hwe

/-- **A round that takes an entry keeps the invariant.** -/
theorem Round.invariant (hnext : ∀ u < count, ∀ w ∈ next u, w < count) :
    Invariant count next o s' where
  ascending := hr.ascending hs
  level := hr.level hs
  known := hr.known hs
  origin := hr.kept hs.origin
  bounded := by
    intro w x h
    rw [hr.relaxed.distance] at h
    split_ifs at h with hw
    · exact hnext u (hs.bounded u d (hr.first_distance hs)) w hw.1
    · exact hs.bounded w x h
  queued_le := hr.queued_le hs
  taken_lt := hr.taken_lt hs
  expanded := hr.expanded hs
  linked := hr.linked hs
  rooted := by
    intro w x h hw
    rw [hr.relaxed.distance] at h
    rw [hr.relaxed.previous]
    split_ifs at h ⊢ with hfresh
    · exact ⟨u, rfl⟩
    · exact hs.rooted w x h hw

end Round

/-- A step with an entry in the queue is a round. -/
theorem Invariant.round (hs : Invariant count next o s) {rest : List (Nat × Nat)}
    (hqueue : s.queue = (d, u) :: rest) : Round next d u rest s (s.step next) := by
  have hmem : (d, u) ∈ s.queue := by simp [hqueue]
  have hascending := (List.pairwise_append.mp hs.ascending).2.1
  rw [hqueue] at hascending
  refine ⟨hqueue, ?_⟩
  rw [Search.step_eq hqueue (hs.not_stale hmem)]
  refine relaxed_foldl (next u) _ (hs.distance_le hqueue) (fun e he => ?_)
    (List.pairwise_cons.mp hascending).2
  have hknown := (hs.known e.2 e.1).mpr (.inr (by simpa [hqueue] using .inr he))
  simp [hknown]

theorem Search.step_of_nil (hqueue : s.queue = []) : s.step next = s := by
  rw [Search.step, hqueue]

/-- **Every step keeps the invariant.** -/
theorem Invariant.step (hs : Invariant count next o s)
    (hnext : ∀ u < count, ∀ w ∈ next u, w < count) : Invariant count next o (s.step next) := by
  rcases hqueue : s.queue with _ | ⟨⟨d, u⟩, rest⟩
  · rwa [Search.step_of_nil hqueue]
  · exact (hs.round hqueue).invariant hs hnext

/-! ## The rounds empty the queue -/

theorem Invariant.run (hs : Invariant count next o s)
    (hnext : ∀ u < count, ∀ w ∈ next u, w < count) (rounds : Nat) :
    Invariant count next o (Search.run next rounds s) := by
  induction rounds generalizing s with
  | zero => exact hs
  | succ rounds ih => exact ih (hs.step hnext)

/-- A step takes one entry, as long as there is one. -/
theorem Invariant.length_taken_step (hs : Invariant count next o s) :
    s.queue = [] ∧ s.step next = s ∨
      (s.step next).taken.length = s.taken.length + 1 := by
  rcases hqueue : s.queue with _ | ⟨⟨d, u⟩, rest⟩
  · exact .inl ⟨rfl, Search.step_of_nil hqueue⟩
  · refine .inr ?_
    rw [(hs.round hqueue).taken_eq, List.length_cons]

theorem Invariant.length_taken_run (hs : Invariant count next o s)
    (hnext : ∀ u < count, ∀ w ∈ next u, w < count) (rounds : Nat) :
    (Search.run next rounds s).queue = [] ∨
      (Search.run next rounds s).taken.length = s.taken.length + rounds := by
  induction rounds generalizing s with
  | zero => exact .inr rfl
  | succ rounds ih =>
    rw [Search.run]
    rcases hs.length_taken_step with ⟨hempty, hsame⟩ | hlength
    · have hstay : ∀ rounds, Search.run next rounds s = s := by
        intro rounds
        induction rounds with
        | zero => rfl
        | succ rounds ih => rw [Search.run, hsame, ih]
      rw [hsame, hstay]
      exact .inl hempty
    · rcases ih (hs.step hnext) with hdone | hmore
      · exact .inl hdone
      · exact .inr (by omega)

/-- Every vertex is queued once. -/
theorem Invariant.nodup_vertices (hs : Invariant count next o s) :
    ((s.taken.reverse ++ s.queue).map Prod.snd).Nodup := by
  have hmem : ∀ e ∈ s.taken.reverse ++ s.queue, s.distance e.2 = some e.1 := by
    intro e he
    rw [List.mem_append, List.mem_reverse] at he
    exact (hs.known e.2 e.1).mpr he
  rw [List.Nodup, List.pairwise_map]
  refine hs.ascending.imp_of_mem fun {a b} ha hb hab heq => ?_
  have hdist := hmem a ha
  rw [heq, hmem b hb] at hdist
  have hsame : a = b := Prod.ext (Option.some.inj hdist).symm heq
  rw [hsame, before_irrefl] at hab
  exact absurd hab (by simp)

/-- There are no more entries than vertices. -/
theorem Invariant.length_le (hs : Invariant count next o s) :
    s.taken.length + s.queue.length ≤ count := by
  have hsub : (s.taken.reverse ++ s.queue).map Prod.snd ⊆ List.range count := by
    intro w hw
    obtain ⟨e, he, rfl⟩ := List.mem_map.mp hw
    rw [List.mem_append, List.mem_reverse] at he
    exact List.mem_range.mpr (hs.bounded e.2 e.1 ((hs.known e.2 e.1).mpr he))
  have := (List.subperm_of_subset hs.nodup_vertices hsub).length_le
  simpa using this

/-- **As many rounds as there are vertices empty the queue.** -/
theorem search_queue (ho : o < count) (hnext : ∀ u < count, ∀ w ∈ next u, w < count) :
    (search count next o).queue = [] := by
  unfold search
  rcases (Invariant.start ho).length_taken_run hnext count with hdone | hlength
  · exact hdone
  · have hle := ((Invariant.start ho).run hnext count).length_le
    rw [hlength] at hle
    exact List.length_eq_zero_iff.mp (by omega)

/-! ## Distances are shortest -/

/-- So many hops lead from `o` to a vertex. -/
inductive Way (next : Nat → List Nat) (o : Nat) : Nat → Nat → Prop
  | here : Way next o 0 o
  | hop {n u w : Nat} (hu : Way next o n u) (hw : w ∈ next u) : Way next o (n + 1) w

/-- A known distance is the length of some way. -/
theorem Invariant.way_of_distance (hs : Invariant count next o s) :
    ∀ {d w}, s.distance w = some d → Way next o d w := by
  intro d
  induction d with
  | zero =>
    intro w h
    by_cases hw : w = o
    · rw [hw]
      exact .here
    · obtain ⟨u, hu⟩ := hs.rooted w 0 h hw
      obtain ⟨d, -, -, hd, -⟩ := hs.linked w u hu
      rw [h] at hd
      exact absurd (Option.some.inj hd) (by omega)
  | succ d ih =>
    intro w h
    by_cases hw : w = o
    · rw [hw, hs.origin] at h
      exact absurd (Option.some.inj h) (by omega)
    · obtain ⟨u, hu⟩ := hs.rooted w _ h hw
      obtain ⟨x, hx, hwu, hd, -⟩ := hs.linked w u hu
      rw [h] at hd
      have hxd : x = d := by
        have := Option.some.inj hd
        omega
      subst hxd
      exact .hop (ih ((hs.known u x).mpr (.inl hx))) hwu

/-- Once the queue is empty, no way is shorter than the distance. -/
theorem Invariant.distance_le_of_way (hs : Invariant count next o s) (hqueue : s.queue = [])
    (h : Way next o n w) : ∃ d, s.distance w = some d ∧ d ≤ n := by
  induction h with
  | here => exact ⟨0, hs.origin, le_refl _⟩
  | hop _ hw ih =>
    obtain ⟨d, hd, hle⟩ := ih
    have htaken := ((hs.known _ d).mp hd).resolve_right (by simp [hqueue])
    obtain ⟨x, hx, hxd⟩ := hs.expanded d _ htaken _ hw
    exact ⟨x, hx, by omega⟩

section Search

variable (ho : o < count) (hnext : ∀ u < count, ∀ w ∈ next u, w < count)

include ho hnext

theorem search_invariant : Invariant count next o (search count next o) :=
  (Invariant.start ho).run hnext count

/-- **The distance found is the least number of hops.** -/
theorem search_distance_iff :
    (search count next o).distance w = some n ↔ IsLeast {m | Way next o m w} n := by
  have hs := search_invariant ho hnext
  have hqueue := search_queue ho hnext
  constructor
  · intro h
    refine ⟨hs.way_of_distance h, fun m hm => ?_⟩
    obtain ⟨d, hd, hle⟩ := hs.distance_le_of_way hqueue hm
    rw [h] at hd
    exact (Option.some.inj hd) ▸ hle
  · rintro ⟨hway, hleast⟩
    obtain ⟨d, hd, hle⟩ := hs.distance_le_of_way hqueue hway
    have := hleast (hs.way_of_distance hd)
    rw [hd, Nat.le_antisymm hle this]

theorem search_distance_of_way (h : Way next o n w) :
    ∃ d, (search count next o).distance w = some d := by
  obtain ⟨d, hd, -⟩ :=
    (search_invariant ho hnext).distance_le_of_way (search_queue ho hnext) h
  exact ⟨d, hd⟩

/-- Distances are below the number of vertices. -/
theorem search_distance_lt (h : (search count next o).distance w = some d) : d < count := by
  have hs := search_invariant ho hnext
  have htaken := ((hs.known w d).mp h).resolve_right (by simp [search_queue ho hnext])
  have hlt := hs.taken_lt _ htaken
  have hle := hs.length_le
  exact Nat.lt_of_lt_of_le hlt (by omega)

/-- **The vertex before another lies one hop nearer to the origin.** -/
theorem search_previous (h : (search count next o).previous w = some u) :
    ∃ d, (search count next o).distance u = some d ∧
      (search count next o).distance w = some (d + 1) ∧ w ∈ next u := by
  have hs := search_invariant ho hnext
  obtain ⟨d, hd, hwu, hdist, -⟩ := hs.linked w u h
  exact ⟨d, (hs.known u d).mpr (.inl hd), hdist, hwu⟩

/-- **The vertex before another is the least one of those that are one hop nearer**: all of them
were taken, in ascending order, and the first that was taken is kept. -/
theorem search_previous_iff : (search count next o).previous w = some u ↔
    ∃ d, (search count next o).distance w = some (d + 1) ∧
      IsLeast {v | (search count next o).distance v = some d ∧ w ∈ next v} u := by
  have hs := search_invariant ho hnext
  have hqueue := search_queue ho hnext
  have hleast : ∀ {u}, (search count next o).previous w = some u →
      ∃ d, (search count next o).distance w = some (d + 1) ∧
        IsLeast {v | (search count next o).distance v = some d ∧ w ∈ next v} u := by
    intro u h
    obtain ⟨d, hu, hwu, hdist, hfirst⟩ := hs.linked w u h
    refine ⟨d, hdist, ⟨(hs.known u d).mpr (.inl hu), hwu⟩, fun v ⟨hv, hwv⟩ => ?_⟩
    have htaken := ((hs.known v d).mp hv).resolve_right (by simp [hqueue])
    have hnot := hfirst (d, v) htaken hwv
    rw [Bool.eq_false_iff, ne_eq, before_iff] at hnot
    omega
  constructor
  · exact hleast
  · rintro ⟨d, hdist, hu⟩
    have hw : w ≠ o := by
      rintro rfl
      rw [hs.origin] at hdist
      exact absurd (Option.some.inj hdist) (by omega)
    obtain ⟨v, hv⟩ := hs.rooted w _ hdist hw
    obtain ⟨x, hx, hleastv⟩ := hleast hv
    rw [hdist] at hx
    have hxd : x = d := by
      have := Option.some.inj hx
      omega
    subst hxd
    rw [hv, hleastv.unique hu]

end Search

end SqlBuilder.ShortestPaths
