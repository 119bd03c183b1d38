import Mathlib.Data.List.Nodup
import ShellSale.Sale.Ranking

/-!
## Who hatches earlier

Reductions go down a ranking: the shells that were fed at all, the most fed first and equals in the
order of their collections and numbers. Different shells never share a place, so the ranking is the
only list of the fed shells in this order, and each place says who gets its reduction.

* `FeedCounts.Outranks` is the order of the ranking, `FeedCounts.pairwise_ranking` says that the
  ranking keeps it.
* `lookup_rankHatchTimes`: the reduction of the shell at a place.
* `ChainState.nodup_food`: counts that are read from the chain list no shell twice, so they are
  ranked fairly (`ChainState.fair_food`).
* `rankHatchTimes_spec` is the main result.
-/

namespace ShellSale

namespace FeedCounts

/-! ### The order of shells -/

theorem before_iff {a b : Shell} : before a b = true ↔ a.1 < b.1 ∨ a.1 = b.1 ∧ a.2 < b.2 := by
  simp [before]

theorem before_trans {a b c : Shell} (h : before a b = true) (h' : before b c = true) :
    before a c = true := by
  rw [before_iff] at *
  omega

/-- Of two different shells one comes before the other. -/
theorem before_or {a b : Shell} (ne : a ≠ b) : before a b = true ∨ before b a = true := by
  rw [before_iff, before_iff]
  by_contra none
  exact ne (Prod.ext (by omega) (by omega))

/-! ### Counts by shell -/

/-- The shells of counts are in their order, none of them twice. -/
def Ascending (counts : FeedCounts) : Prop :=
  counts.Pairwise fun a b => before a.1 b.1 = true

theorem Ascending.nodup {counts : FeedCounts} (h : counts.Ascending) :
    (counts.map (·.1)).Nodup := by
  rw [List.nodup_iff_pairwise_ne, List.pairwise_map]
  refine h.imp ?_
  intro a b first same
  rw [same, before_iff] at first
  omega

theorem mem_of_mem_insert {shell : Shell} {count : Nat} {counts : FeedCounts} {e : Shell × Nat}
    (mem : e ∈ counts.insert shell count) : e = (shell, count) ∨ e ∈ counts := by
  induction counts with
  | nil => exact Or.inl (List.mem_singleton.mp mem)
  | cons first rest ih =>
    obtain ⟨other, n⟩ := first
    rw [insert] at mem
    split at mem
    · exact (List.mem_cons.mp mem).imp_right (List.mem_cons_of_mem _)
    · split at mem
      · exact List.mem_cons.mp mem
      · rcases List.mem_cons.mp mem with rfl | later
        · exact Or.inr List.mem_cons_self
        · exact (ih later).imp_right (List.mem_cons_of_mem _)

theorem ascending_insert {counts : FeedCounts} (h : counts.Ascending) (shell : Shell)
    (count : Nat) : (counts.insert shell count).Ascending := by
  induction counts with
  | nil => exact List.pairwise_singleton _ _
  | cons first rest ih =>
    obtain ⟨other, n⟩ := first
    obtain ⟨least, sorted⟩ := List.pairwise_cons.mp h
    rw [insert]
    split
    · rename_i same
      exact List.pairwise_cons.mpr ⟨same ▸ least, sorted⟩
    · rename_i different
      split
      · rename_i sooner
        refine List.pairwise_cons.mpr ⟨?_, h⟩
        intro e mem
        rcases List.mem_cons.mp mem with rfl | later
        · exact sooner
        · exact before_trans sooner (least e later)
      · rename_i notSooner
        refine List.pairwise_cons.mpr ⟨?_, ih sorted⟩
        intro e mem
        rcases mem_of_mem_insert mem with rfl | later
        · exact (before_or different).resolve_left notSooner
        · exact least e later

end FeedCounts

/-- Counts that are read from the chain are in the order of the shells. -/
theorem ChainState.ascending_countsOf {counts counts' : FeedCounts} {entries : List StoredEntry}
    (h : counts.Ascending) (read : countsOf counts entries = .ok counts') :
    counts'.Ascending := by
  induction entries generalizing counts with
  | nil =>
    obtain rfl := Except.ok.inj read
    exact h
  | cons entry rest ih =>
    rw [countsOf] at read
    split at read
    · exact ih (FeedCounts.ascending_insert h _ _) read
    · cases read

/-- **Counts that are read from the chain** list no shell twice. -/
theorem ChainState.nodup_food {σ : Type} {s : Storage σ} {node : σ} {now era : Nat}
    {counts : FeedCounts} (read : food s node now era = .ok counts) :
    (counts.map (·.1)).Nodup := by
  unfold food at read
  cases listed : forPurpose ("could not list the food stats of era " ++ toString era)
      (s.food node now era) with
  | error e =>
    rw [listed] at read
    cases read
  | ok entries =>
    rw [listed] at read
    exact (ascending_countsOf List.Pairwise.nil read).nodup

namespace FeedCounts

/-! ### The ranking -/

/-- The place of an entry is before that of another: its shell was fed more often, or as often and
comes first by collection and number. -/
def Outranks (a b : Shell × Nat) : Prop :=
  b.2 < a.2 ∨ a.2 = b.2 ∧ (a.1.1 < b.1.1 ∨ a.1.1 = b.1.1 ∧ a.1.2 < b.1.2)

theorem ranksFirst_iff {a b : Shell × Nat} :
    ranksFirst a b = true ↔ b.2 < a.2 ∨ a.2 = b.2 ∧ ¬before b.1 a.1 = true := by
  simp [ranksFirst]

theorem ranksFirst_trans (a b c : Shell × Nat) (h : ranksFirst a b = true)
    (h' : ranksFirst b c = true) : ranksFirst a c = true := by
  rw [ranksFirst_iff, before_iff] at *
  omega

theorem ranksFirst_total (a b : Shell × Nat) : (ranksFirst a b || ranksFirst b a) = true := by
  rw [Bool.or_eq_true, ranksFirst_iff, ranksFirst_iff, before_iff, before_iff]
  omega

/-- Of entries with different shells, the one that is ranked first outranks the other. -/
theorem outranks_of_ranksFirst {a b : Shell × Nat} (h : ranksFirst a b = true) (ne : a.1 ≠ b.1) :
    Outranks a b := by
  refine (ranksFirst_iff.mp h).imp_right (And.imp_right ?_)
  intro notLater
  exact before_iff.mp ((before_or ne).resolve_right notLater)

variable {counts : FeedCounts}

theorem perm_ranking (counts : FeedCounts) :
    counts.ranking.Perm (counts.filter fun e => 0 < e.2) :=
  List.mergeSort_perm _ _

theorem nodup_ranking (nodup : (counts.map (·.1)).Nodup) : (counts.ranking.map (·.1)).Nodup :=
  ((perm_ranking counts).map _).nodup_iff.mpr (nodup.sublist (List.filter_sublist.map _))

/-- **The ranking** is in its order. -/
theorem pairwise_ranking (nodup : (counts.map (·.1)).Nodup) :
    counts.ranking.Pairwise Outranks := by
  have sorted : counts.ranking.Pairwise fun a b => ranksFirst a b = true :=
    List.pairwise_mergeSort ranksFirst_trans ranksFirst_total _
  have apart := nodup_ranking nodup
  rw [List.nodup_iff_pairwise_ne, List.pairwise_map] at apart
  exact (sorted.and apart).imp fun h => outranks_of_ranksFirst h.1 h.2

theorem mem_ranking_iff {e : Shell × Nat} : e ∈ counts.ranking ↔ e ∈ counts ∧ 0 < e.2 := by
  rw [(perm_ranking counts).mem_iff, List.mem_filter, decide_eq_true_iff]

/-- A shell has one place only. -/
theorem place_unique (nodup : (counts.map (·.1)).Nodup) {i j : Nat} {a b : Shell × Nat}
    (ha : counts.ranking[i]? = some a) (hb : counts.ranking[j]? = some b) (same : a.1 = b.1) :
    i = j := by
  have mapA : (counts.ranking.map (·.1))[i]? = some a.1 := by rw [List.getElem?_map, ha]; rfl
  have mapB : (counts.ranking.map (·.1))[j]? = some a.1 := by rw [List.getElem?_map, hb, same]; rfl
  have bound := (List.getElem?_eq_some_iff.mp mapA).1
  exact (List.getElem?_inj bound (nodup_ranking nodup)).mp (mapA.trans mapB.symm)

/-- An earlier place outranks a later one. -/
theorem outranks_of_lt (nodup : (counts.map (·.1)).Nodup) {i j : Nat} {a b : Shell × Nat}
    (ha : counts.ranking[i]? = some a) (hb : counts.ranking[j]? = some b) (earlier : i < j) :
    Outranks a b := by
  obtain ⟨boundA, rfl⟩ := List.getElem?_eq_some_iff.mp ha
  obtain ⟨boundB, rfl⟩ := List.getElem?_eq_some_iff.mp hb
  exact List.pairwise_iff_getElem.mp (pairwise_ranking nodup) i j boundA boundB earlier

/-- A shell that was fed more often than another one has an earlier place. -/
theorem lt_of_fed_more (nodup : (counts.map (·.1)).Nodup) {i j : Nat} {a b : Shell × Nat}
    (ha : counts.ranking[i]? = some a) (hb : counts.ranking[j]? = some b) (more : b.2 < a.2) :
    i < j := by
  by_contra notBefore
  rcases Nat.lt_or_eq_of_le (Nat.le_of_not_lt notBefore) with later | rfl
  · rcases outranks_of_lt nodup hb ha later with less | ⟨same, -⟩ <;> omega
  · rw [ha] at hb
    obtain rfl := Option.some.inj hb
    exact Nat.lt_irrefl _ more

/-- How often a shell was fed; a shell without an entry was not fed. -/
def times (counts : FeedCounts) (s : Shell) : Nat :=
  (counts.lookup s).getD 0

end FeedCounts

/-! ### Reductions -/

/-- By how much a shell hatches earlier; a shell without a reduction does not. -/
def reductionOf (ranked : List (Shell × Nat)) (s : Shell) : Nat :=
  (ranked.lookup s).getD 0

/-- Looking up a key that is listed once. -/
theorem lookup_eq_some_of_mem {α β : Type} [BEq α] [LawfulBEq α] {entries : List (α × β)} {a : α}
    {b : β} (nodup : (entries.map (·.1)).Nodup) (mem : (a, b) ∈ entries) :
    entries.lookup a = some b := by
  induction entries with
  | nil => cases mem
  | cons e rest ih =>
    rw [List.map_cons, List.nodup_cons] at nodup
    rcases List.mem_cons.mp mem with rfl | later
    · exact List.lookup_cons_self
    · have other : (a == e.1) = false := by
        rw [beq_eq_false_iff_ne]
        rintro rfl
        exact nodup.1 (List.mem_map_of_mem (f := (·.1)) later)
      rw [List.lookup_cons, other]
      exact ih nodup.2 later

theorem lookup_eq_none_of_not_mem {α β : Type} [BEq α] [LawfulBEq α] {entries : List (α × β)}
    {a : α} (absent : a ∉ entries.map (·.1)) : entries.lookup a = none := by
  rw [List.lookup_eq_none_iff]
  intro e mem
  rw [bne_iff_ne]
  rintro rfl
  exact absent (List.mem_map_of_mem (f := (·.1)) mem)

theorem FeedCounts.times_of_mem {counts : FeedCounts} (nodup : (counts.map (·.1)).Nodup) {s : Shell}
    {n : Nat} (mem : (s, n) ∈ counts) : counts.times s = n := by
  rw [times, lookup_eq_some_of_mem nodup mem, Option.getD_some]

/-- A shell that was fed has a place in the ranking. -/
theorem FeedCounts.exists_place {counts : FeedCounts} {s : Shell} (fed : 0 < counts.times s) :
    ∃ i : Nat, counts.ranking[i]? = some (s, counts.times s) := by
  rw [← List.mem_iff_getElem?, mem_ranking_iff]
  refine ⟨?_, fed⟩
  cases found : counts.lookup s with
  | none => simp [times, found] at fed
  | some n =>
    obtain ⟨before, after, rfl, -⟩ := List.lookup_eq_some_iff.mp found
    simp [times, found]

variable {counts : FeedCounts} {reductions : List Nat}

/-- **Who is at a place**: the reduction of the place goes to the shell of the ranking. -/
theorem getElem?_rankHatchTimes (counts : FeedCounts) (reductions : List Nat) (i : Nat)
    (s : Shell) (r : Nat) : (rankHatchTimes counts reductions)[i]? = some (s, r) ↔
      (∃ n, counts.ranking[i]? = some (s, n)) ∧ reductions[i]? = some r := by
  rw [rankHatchTimes, List.getElem?_zip_eq_some, List.getElem?_map, Option.map_eq_some_iff]
  refine and_congr_left fun _ => ?_
  constructor
  · rintro ⟨⟨s, n⟩, found, rfl⟩
    exact ⟨n, found⟩
  · rintro ⟨n, found⟩
    exact ⟨(s, n), found, rfl⟩

theorem nodup_rankHatchTimes (nodup : (counts.map (·.1)).Nodup) :
    ((rankHatchTimes counts reductions).map (·.1)).Nodup := by
  rw [rankHatchTimes, List.zip_eq_zip_take_min, List.map_fst_zip (by simp)]
  exact (FeedCounts.nodup_ranking nodup).sublist (List.take_sublist _ _)

/-- A shell has an entry with a reduction exactly if it has a place for which there is one. -/
theorem mem_rankHatchTimes_iff {s : Shell} : s ∈ (rankHatchTimes counts reductions).map (·.1) ↔
    ∃ (i : Nat) (n : Nat), counts.ranking[i]? = some (s, n) ∧ i < reductions.length := by
  constructor
  · intro mem
    obtain ⟨⟨s, r⟩, listed, rfl⟩ := List.mem_map.mp mem
    obtain ⟨i, found⟩ := List.mem_iff_getElem?.mp listed
    obtain ⟨⟨n, place⟩, given⟩ := (getElem?_rankHatchTimes ..).mp found
    exact ⟨i, n, place, (List.getElem?_eq_some_iff.mp given).1⟩
  · rintro ⟨i, n, place, enough⟩
    have found := (getElem?_rankHatchTimes counts reductions i s reductions[i]).mpr
      ⟨⟨n, place⟩, List.getElem?_eq_getElem enough⟩
    exact List.mem_map.mpr ⟨_, List.mem_of_getElem? found, rfl⟩

/-- The reduction of the shell at a place is that of the place, if there is one. -/
theorem lookup_rankHatchTimes (nodup : (counts.map (·.1)).Nodup) {i : Nat} {e : Shell × Nat}
    (place : counts.ranking[i]? = some e) :
    (rankHatchTimes counts reductions).lookup e.1 = reductions[i]? := by
  cases given : reductions[i]? with
  | some r =>
    have listed := (getElem?_rankHatchTimes counts reductions i e.1 r).mpr ⟨⟨e.2, place⟩, given⟩
    exact lookup_eq_some_of_mem (nodup_rankHatchTimes nodup) (List.mem_of_getElem? listed)
  | none =>
    refine lookup_eq_none_of_not_mem ?_
    intro mem
    obtain ⟨j, n, place', enough⟩ := mem_rankHatchTimes_iff.mp mem
    -- the shell has one place only, so there is a reduction for it
    obtain rfl := FeedCounts.place_unique nodup place place' rfl
    exact Nat.not_lt.mpr (List.getElem?_eq_none_iff.mp given) enough

/-- A shell that was fed and gets no reduction comes after all that get one. -/
theorem outranks_of_left_out (nodup : (counts.map (·.1)).Nodup) {e e' : Shell × Nat}
    (mem : e ∈ counts) (fed : 0 < e.2) (left : e.1 ∉ (rankHatchTimes counts reductions).map (·.1))
    (mem' : e' ∈ counts) (listed : e'.1 ∈ (rankHatchTimes counts reductions).map (·.1)) :
    FeedCounts.Outranks e' e := by
  have ranked : e ∈ counts.ranking := FeedCounts.mem_ranking_iff.mpr ⟨mem, fed⟩
  obtain ⟨j, place⟩ := List.mem_iff_getElem?.mp ranked
  obtain ⟨i, n, place', enough⟩ := mem_rankHatchTimes_iff.mp listed
  -- the entry of a shell is the only one
  have entry : (e'.1, n) = e' := by
    have mem'' := (FeedCounts.mem_ranking_iff.mp (List.mem_of_getElem? place')).1
    exact List.inj_on_of_nodup_map nodup mem'' mem' rfl
  rw [entry] at place'
  have earlier : i < j := by
    by_contra notEarlier
    -- else there would be a reduction for the place of `e` too
    exact left (mem_rankHatchTimes_iff.mpr
      ⟨j, e.2, place, Nat.lt_of_le_of_lt (Nat.le_of_not_lt notEarlier) enough⟩)
  exact FeedCounts.outranks_of_lt nodup place' place earlier

/-- If the reductions do not increase, being fed more often is never punished. -/
theorem reductionOf_le_of_fed_more (nodup : (counts.map (·.1)).Nodup)
    (descending : reductions.Pairwise (· ≥ ·)) {a b : Shell}
    (more : counts.times b < counts.times a) :
    reductionOf (rankHatchTimes counts reductions) b ≤
      reductionOf (rankHatchTimes counts reductions) a := by
  obtain ⟨i, placeA⟩ := FeedCounts.exists_place (Nat.zero_lt_of_lt more)
  by_cases listed : b ∈ (rankHatchTimes counts reductions).map (·.1)
  · obtain ⟨j, n, placeB, enough⟩ := mem_rankHatchTimes_iff.mp listed
    have count : counts.times b = n :=
      FeedCounts.times_of_mem nodup (FeedCounts.mem_ranking_iff.mp (List.mem_of_getElem? placeB)).1
    have earlier : i < j := FeedCounts.lt_of_fed_more nodup placeA placeB (count ▸ more)
    have enough' : i < reductions.length := Nat.lt_trans earlier enough
    rw [reductionOf, reductionOf, lookup_rankHatchTimes nodup placeA,
      lookup_rankHatchTimes nodup placeB, List.getElem?_eq_getElem enough,
      List.getElem?_eq_getElem enough']
    exact List.pairwise_iff_getElem.mp descending i j enough' enough earlier
  · rw [reductionOf, lookup_eq_none_of_not_mem listed]
    exact Nat.zero_le _

/-- **What is read from the chain is ranked fairly**: no shell is rewarded twice, and none that was
fed more often than another gets less. -/
theorem ChainState.fair_food {σ : Type} {s : Storage σ} {node : σ} {now era : Nat}
    {counts : FeedCounts} {reductions : List Nat} (read : food s node now era = .ok counts)
    (descending : reductions.Pairwise (· ≥ ·)) :
    ((rankHatchTimes counts reductions).map (·.1)).Nodup ∧
      ∀ a b, counts.times b < counts.times a →
        reductionOf (rankHatchTimes counts reductions) b ≤
          reductionOf (rankHatchTimes counts reductions) a :=
  ⟨nodup_rankHatchTimes (nodup_food read), fun _ _ more =>
    reductionOf_le_of_fed_more (nodup_food read) descending more⟩

/-- **The ranking hands out its reductions fairly.** No shell is listed twice, and there are as many
as there are shells that were fed, or reductions if these are fewer. The shells that were fed have
one order by which each comes before the later ones: descending by count, equals ascending by
collection and number; the `i`-th of them gets the `i`-th reduction. A shell that gets none was not
fed, or comes after all that do. If the reductions do not increase, a shell that was fed more often
than another never gets less. -/
theorem rankHatchTimes_spec (counts : FeedCounts) (reductions : List Nat)
    (nodup : (counts.map (·.1)).Nodup) :
    let ranked := rankHatchTimes counts reductions
    let fed := counts.filter fun e => 0 < e.2
    (ranked.map (·.1)).Nodup ∧ ranked.length = min fed.length reductions.length ∧
      (∃ order : List (Shell × Nat), order.Perm fed ∧ order.Pairwise FeedCounts.Outranks ∧
        ∀ (i : Nat) s r, ranked[i]? = some (s, r) ↔
          (∃ n, order[i]? = some (s, n)) ∧ reductions[i]? = some r) ∧
      (∀ e ∈ counts, e.1 ∉ ranked.map (·.1) →
        e.2 = 0 ∨ ∀ e' ∈ counts, e'.1 ∈ ranked.map (·.1) → FeedCounts.Outranks e' e) ∧
      (reductions.Pairwise (· ≥ ·) → ∀ a b, counts.times b < counts.times a →
        reductionOf ranked b ≤ reductionOf ranked a) := by
  intro ranked fed
  have perm : counts.ranking.Perm fed := FeedCounts.perm_ranking counts
  have length : ranked.length = min fed.length reductions.length := by
    rw [← perm.length_eq]
    simp [ranked, rankHatchTimes]
  refine ⟨nodup_rankHatchTimes nodup, length, ⟨counts.ranking, perm,
    FeedCounts.pairwise_ranking nodup, getElem?_rankHatchTimes counts reductions⟩, ?_, ?_⟩
  · intro e mem left
    refine (Nat.eq_zero_or_pos e.2).imp_right fun fedE e' mem' listed => ?_
    exact outranks_of_left_out nodup mem fedE left mem' listed
  · intro descending a b more
    exact reductionOf_le_of_fed_more nodup descending more

/-- Two shells that were fed as often, with one reduction less than fed shells. The one that comes
first is rewarded, and a shell that was fed once goes without. -/
theorem rankHatchTimes_spec_ties :
    let counts : FeedCounts := [((1, 0), 2), ((1, 1), 3), ((1, 2), 2), ((1, 4), 1), ((2, 0), 0)]
    (counts.map (·.1)).Nodup ∧
      ((rankHatchTimes counts [10800, 7200, 3600]).map (·.1)).Nodup ∧
      (rankHatchTimes counts [10800, 7200, 3600]).length = 3 ∧
      reductionOf (rankHatchTimes counts [10800, 7200, 3600]) (1, 4) ≤
        reductionOf (rankHatchTimes counts [10800, 7200, 3600]) (1, 2) := by
  intro counts
  have nodup : (counts.map (·.1)).Nodup := by decide
  obtain ⟨distinct, length, -, -, fair⟩ := rankHatchTimes_spec counts [10800, 7200, 3600] nodup
  exact ⟨nodup, distinct, length, fair (by decide) (1, 2) (1, 4) (by decide)⟩

end ShellSale
