import SqlBuilder.Proofs.JoinGraph.Search

/-!
# The rounds of the search

What the search does round by round. `Search.entries` are the entries that looking at hops puts into
the queue, `Search.log` all that a number of rounds puts there. Entries leave the queue only to be
taken, so what was put in is what was taken and what is queued (`perm_run`), whatever the graph.

The search from a vertex takes one entry in each round until the queue is empty, and from then on
stays as it is. So the entries that the finished search has taken are, in this order, the ones
taken in the rounds before (`taken_run`), the queue is empty after as many rounds as there are
entries (`queue_run_iff`), and these are all that was ever put in, each once (`perm_log`).
-/

namespace SqlBuilder.ShortestPaths

variable {next : Nat → List Nat} {s : Search} {count o u d w : Nat} {e : Nat × Nat}
  {ws : List Nat} {j k : Nat}

/-! ## What is put into the queue -/

namespace Search

/-- The entries that looking at the hops from `u`, at distance `d`, puts into the queue. -/
def entries (u d : Nat) : List Nat → Search → List (Nat × Nat)
  | [], _ => []
  | w :: ws, s =>
    (if improves (d + 1) (s.distance w) then [(d + 1, w)] else []) ++
      entries u d ws (s.relax u d w)

/-- The entries that a step puts into the queue. -/
def pushed (next : Nat → List Nat) (s : Search) : List (Nat × Nat) :=
  match s.queue with
  | [] => []
  | (d, u) :: rest =>
    let s := { s with queue := rest, taken := (d, u) :: s.taken }
    if s.isStale (d, u) then [] else entries u d (next u) s

/-- The entries that a number of rounds puts into the queue. -/
def log (next : Nat → List Nat) : Nat → Search → List (Nat × Nat)
  | 0, _ => []
  | rounds + 1, s => s.pushed next ++ log next rounds (s.step next)

end Search

theorem perm_enqueue (e : Nat × Nat) : ∀ queue, (enqueue e queue).Perm (e :: queue)
  | [] => .refl _
  | first :: rest => by
    unfold enqueue
    split_ifs
    · exact .refl _
    · exact ((perm_enqueue e rest).cons first).trans (.swap e first rest)

theorem taken_relax (s : Search) : (s.relax u d w).taken = s.taken := by
  unfold Search.relax
  split_ifs <;> rfl

theorem taken_foldl_relax (ws : List Nat) (s : Search) :
    (ws.foldl (Search.relax u d) s).taken = s.taken := by
  induction ws generalizing s with
  | nil => rfl
  | cons w ws ih => rw [List.foldl_cons, ih, taken_relax]

theorem perm_relax (s : Search) : (s.relax u d w).queue.Perm
    (s.queue ++ if improves (d + 1) (s.distance w) then [(d + 1, w)] else []) := by
  unfold Search.relax
  split_ifs
  · exact (perm_enqueue _ _).trans (List.perm_append_singleton _ _).symm
  · rw [List.append_nil]

theorem perm_foldl_relax (ws : List Nat) (s : Search) :
    (ws.foldl (Search.relax u d) s).queue.Perm (s.queue ++ Search.entries u d ws s) := by
  induction ws generalizing s with
  | nil => rw [Search.entries, List.append_nil, List.foldl_nil]
  | cons w ws ih =>
    rw [List.foldl_cons, Search.entries, ← List.append_assoc]
    exact (ih _).trans ((perm_relax s).append_right _)

/-- What a step puts in is queued after it, and the entry that it takes is taken. -/
theorem perm_step (s : Search) : ((s.step next).taken ++ (s.step next).queue).Perm
    (s.taken ++ s.queue ++ s.pushed next) := by
  rcases hqueue : s.queue with _ | ⟨⟨d, u⟩, rest⟩
  · rw [Search.step_of_nil hqueue, Search.pushed, hqueue]
    simp only [List.append_nil, List.Perm.refl]
  · have hmove : ((d, u) :: s.taken ++ rest).Perm (s.taken ++ (d, u) :: rest) :=
      List.perm_middle.symm
    unfold Search.step Search.pushed
    rw [hqueue]
    dsimp only
    split_ifs
    · rw [List.append_nil]
      exact hmove
    · rw [taken_foldl_relax]
      refine ((perm_foldl_relax _ _).append_left _).trans ?_
      rw [← List.append_assoc]
      exact hmove.append_right _

/-- **What was put into the queue was taken or is queued**, entry by entry. -/
theorem perm_run (rounds : Nat) (s : Search) :
    ((Search.run next rounds s).taken ++ (Search.run next rounds s).queue).Perm
      (s.taken ++ s.queue ++ Search.log next rounds s) := by
  induction rounds generalizing s with
  | zero => rw [Search.run, Search.log, List.append_nil]
  | succ rounds ih =>
    rw [Search.run, Search.log, ← List.append_assoc]
    exact (ih _).trans ((perm_step s).append_right _)

/-! ## Round by round -/

theorem run_add (j k : Nat) (s : Search) :
    Search.run next (j + k) s = Search.run next k (Search.run next j s) := by
  induction j generalizing s with
  | zero => rw [Nat.zero_add, Search.run]
  | succ j ih => rw [Nat.succ_add, Search.run, Search.run, ih]

theorem run_of_nil (h : s.queue = []) (k : Nat) : Search.run next k s = s := by
  induction k with
  | zero => rfl
  | succ k ih => rw [Search.run, Search.step_of_nil h, ih]

/-- A step takes the first entry of the queue. -/
theorem taken_step (s : Search) : (s.step next).taken = s.queue.head?.toList ++ s.taken := by
  rcases hqueue : s.queue with _ | ⟨⟨d, u⟩, rest⟩
  · rw [Search.step_of_nil hqueue]
    rfl
  · unfold Search.step
    rw [hqueue]
    dsimp only
    split_ifs
    · rfl
    · rw [taken_foldl_relax]
      rfl

theorem taken_suffix_run (k : Nat) (s : Search) : s.taken <:+ (Search.run next k s).taken := by
  induction k generalizing s with
  | zero => exact List.suffix_refl _
  | succ k ih =>
    refine List.IsSuffix.trans ?_ (ih (s.step next))
    rw [taken_step]
    exact List.suffix_append _ _

theorem length_taken_run_le (k : Nat) (s : Search) :
    (Search.run next k s).taken.length ≤ s.taken.length + k := by
  induction k generalizing s with
  | zero => exact Nat.le_refl _
  | succ k ih =>
    have hstep : (s.step next).taken.length ≤ s.taken.length + 1 := by
      rw [taken_step, List.length_append]
      cases s.queue <;> simp [Nat.add_comm]
    exact (ih (s.step next)).trans (by omega)

/-! ## The search from a vertex -/

theorem Invariant.kept_run (hs : Invariant count next o s)
    (hnext : ∀ u < count, ∀ w ∈ next u, w < count) (hd : s.distance w = some d) (k : Nat) :
    (Search.run next k s).distance w = some d := by
  induction k generalizing s with
  | zero => exact hd
  | succ k ih =>
    refine ih (hs.step hnext) ?_
    rcases hqueue : s.queue with _ | ⟨⟨x, u⟩, rest⟩
    · rwa [Search.step_of_nil hqueue]
    · exact (hs.round hqueue).kept hd

section Search

variable (ho : o < count) (hnext : ∀ u < count, ∀ w ∈ next u, w < count)

include ho hnext

/-- Rounds beyond those of the search change nothing. -/
theorem run_of_le (hle : count ≤ k) : Search.run next k (.start o) = search count next o := by
  obtain ⟨j, rfl⟩ := Nat.exists_eq_add_of_le hle
  rw [run_add]
  exact run_of_nil (search_queue ho hnext) j

/-- Once the queue is empty, the search is finished, after however many rounds. -/
theorem run_eq_search (h : (Search.run next k (.start o)).queue = []) :
    Search.run next k (.start o) = search count next o := by
  rcases Nat.le_total k count with hle | hle
  · obtain ⟨j, rfl⟩ := Nat.exists_eq_add_of_le hle
    rw [search, run_add, run_of_nil h]
  · exact run_of_le ho hnext hle

theorem taken_run_suffix (k : Nat) :
    (Search.run next k (.start o)).taken <:+ (search count next o).taken := by
  rcases Nat.le_total k count with hle | hle
  · obtain ⟨j, rfl⟩ := Nat.exists_eq_add_of_le hle
    rw [search, run_add]
    exact taken_suffix_run j _
  · exact congrArg Search.taken (run_of_le ho hnext hle) ▸ List.suffix_refl _

/-- **The entries taken in some rounds are the first ones that the finished search has taken.** -/
theorem taken_run (k : Nat) : (Search.run next k (.start o)).taken.reverse =
    (search count next o).taken.reverse.take k := by
  rcases (Invariant.start ho).length_taken_run hnext k with hdone | hlength
  · have hle : (Search.run next k (.start o)).taken.length ≤ 0 + k := length_taken_run_le k _
    rw [run_eq_search ho hnext hdone, ← List.length_reverse, Nat.zero_add] at hle
    rw [run_eq_search ho hnext hdone, List.take_of_length_le hle]
  · have hprefix := List.reverse_prefix.mpr (taken_run_suffix ho hnext k)
    have hk : (Search.run next k (.start o)).taken.reverse.length = k := by
      rw [List.length_reverse, hlength]
      exact Nat.zero_add k
    have htake := List.prefix_iff_eq_take.mp hprefix
    rwa [hk] at htake

/-- **The queue is empty after as many rounds as the finished search has taken entries.** -/
theorem queue_run_iff : (Search.run next k (.start o)).queue = [] ↔
    (search count next o).taken.length ≤ k := by
  constructor
  · intro h
    have hle : (Search.run next k (.start o)).taken.length ≤ 0 + k := length_taken_run_le k _
    rwa [run_eq_search ho hnext h, Nat.zero_add] at hle
  · intro hle
    rcases (Invariant.start ho).length_taken_run hnext k with hdone | hlength
    · exact hdone
    -- one more round would take more than there is
    by_contra hne
    obtain ⟨e, rest, hqueue⟩ := List.exists_cons_of_ne_nil hne
    have hnextRound := (taken_run_suffix ho hnext (k + 1)).length_le
    rw [run_add, Search.run, Search.run, taken_step, hqueue, List.length_append, hlength,
      List.head?_cons, Option.toList_some, List.length_singleton] at hnextRound
    omega

/-- A distance that is given in some round stays. -/
theorem distance_run (h : (Search.run next k (.start o)).distance w = some d) :
    (search count next o).distance w = some d := by
  rcases Nat.le_total k count with hle | hle
  · obtain ⟨j, rfl⟩ := Nat.exists_eq_add_of_le hle
    rw [search, run_add]
    exact ((Invariant.start ho).run hnext k).kept_run hnext h j
  · rwa [run_of_le ho hnext hle] at h

/-- **All that was ever put into the queue was taken once.** -/
theorem perm_log (hk : (search count next o).taken.length ≤ k) :
    ((0, o) :: Search.log next k (.start o)).Perm (search count next o).taken := by
  have hperm : ((Search.run next k (.start o)).taken ++ (Search.run next k (.start o)).queue).Perm
      ((0, o) :: Search.log next k (.start o)) := perm_run k _
  have hqueue := (queue_run_iff ho hnext).mpr hk
  rw [hqueue, run_eq_search ho hnext hqueue, List.append_nil] at hperm
  exact hperm.symm

end Search

end SqlBuilder.ShortestPaths
