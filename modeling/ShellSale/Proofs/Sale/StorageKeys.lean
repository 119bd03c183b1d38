import Mathlib.Algebra.Group.Nat.Defs
import Mathlib.Data.List.Forall2
import ShellSale.Proofs.Sale.Visits

/-!
## Ids at the ends of storage keys

A key of a map in the storage ends with the bytes of what its entry is about, so the ids can be
taken from there whatever stands in front of them. A listing is read as a whole or not at all: one
key that is too short for its ids fails it, and with it the phase that asked for it.

* `trailingIds?_of_endsWith`: what is taken from the end of a key is what was put there.
* `ChainState.owned_eq_ok` and `ChainState.exists_food`: what is read of listed entries.
* `ChainState.nftsOf_short` and `ChainState.countsOf_short`: one short key fails a reading.
* `Phase.run_of_halted`: where a phase ends.
* `Phase.incubation_listings` is the main result.
-/

namespace ShellSale

variable {σ : Type}

/-! ### Ids as bytes -/

/-- A number that fits its bytes is what they stand for. -/
theorem Bytes.ofLittleEndian_littleEndian {width n : Nat} (h : n < 256 ^ width) :
    ofLittleEndian (littleEndian width n) = n := by
  induction width generalizing n with
  | zero => exact (Nat.lt_one_iff.mp h).symm
  | succ width ih =>
    have high : n / 256 < 256 ^ width := by
      rw [Nat.pow_succ] at h
      exact Nat.div_lt_of_lt_mul (Nat.mul_comm _ _ ▸ h)
    have low : (UInt8.ofNat (n % 256)).toNat = n % 256 :=
      UInt8.toNat_ofNat_of_lt' (Nat.mod_lt n (by decide))
    rw [littleEndian, ofLittleEndian, ih high, low]
    exact Nat.mod_add_div n 256

theorem idsOf_append {id : Nat} (small : id < UInt32.size) (rest : List UInt8) :
    idsOf (Bytes.littleEndian 4 id ++ rest) = id :: idsOf rest := by
  show Bytes.ofLittleEndian (Bytes.littleEndian 4 id) :: idsOf rest = id :: idsOf rest
  rw [Bytes.ofLittleEndian_littleEndian small]

/-- The bytes of ids stand for the ids. -/
theorem idsOf_flatMap {ids : List Nat} (small : ∀ id ∈ ids, id < UInt32.size) :
    idsOf (ids.flatMap (Bytes.littleEndian 4)) = ids := by
  induction ids with
  | nil => rfl
  | cons id ids ih =>
    obtain ⟨here, later⟩ := List.forall_mem_cons.mp small
    rw [List.flatMap_cons, idsOf_append here, ih later]

theorem length_flatMap_littleEndian (ids : List Nat) :
    (ids.flatMap (Bytes.littleEndian 4)).length = 4 * ids.length := by
  simp [List.length_flatMap, Nat.mul_comm]

/-- Whether a key ends with the bytes of ids of 32 bits each. -/
structure EndsWith (key : List UInt8) (ids : List Nat) : Prop where
  small : ∀ id ∈ ids, id < UInt32.size
  bytes : ids.flatMap (Bytes.littleEndian 4) <:+ key

/-- **The ids at the end of a key** are what is taken from it. -/
theorem trailingIds?_of_endsWith {key : List UInt8} {ids : List Nat} (h : EndsWith key ids) :
    trailingIds? ids.length key = some ids := by
  obtain ⟨small, front, rfl⟩ := h
  have length := length_flatMap_littleEndian ids
  have enough : ¬(front ++ ids.flatMap (Bytes.littleEndian 4)).length < 4 * ids.length := by
    rw [List.length_append]
    omega
  have behind : (front ++ ids.flatMap (Bytes.littleEndian 4)).length - 4 * ids.length =
      front.length := by
    rw [List.length_append]
    omega
  rw [trailingIds?, if_neg enough, behind, List.drop_left, idsOf_flatMap small]

example : trailingIds? 2 (List.replicate 48 0xAA ++ [1, 0, 0, 0, 2, 1, 0, 0]) = some [1, 258] := by
  decide

theorem trailingIds?_of_short {key : List UInt8} {count : Nat} (short : key.length < 4 * count) :
    trailingIds? count key = none :=
  if_pos short

/-! ### Counts -/

/-- A shell that was not counted is added to the counts. -/
theorem FeedCounts.perm_insert {shell : Shell} {counts : FeedCounts}
    (absent : shell ∉ counts.map (·.1)) (n : Nat) :
    (counts.insert shell n).Perm ((shell, n) :: counts) := by
  induction counts with
  | nil => exact .refl _
  | cons first rest ih =>
    obtain ⟨other, m⟩ := first
    obtain ⟨ne, absent⟩ := List.ne_and_not_mem_of_not_mem_cons absent
    rw [insert, if_neg ne]
    split
    · exact .refl _
    · exact ((ih absent).cons _).trans (.swap _ _ _)

namespace ChainState

/-! ### Listed entries -/

/-- Whether an entry of the storage counts how often a shell was fed. -/
structure Counts (e : StoredEntry) (c : Shell × Nat) : Prop where
  key : EndsWith e.key [c.1.1, c.1.2]
  value : e.value = c.2

theorem nftsOf_eq_ok {entries : List StoredEntry} {nfts : List Nat}
    (h : List.Forall₂ (fun e nft => EndsWith e.key [nft]) entries nfts) :
    nftsOf entries = .ok nfts := by
  induction h with
  | nil => rfl
  | cons ends _ ih =>
    have last := trailingIds?_of_endsWith ends
    rw [List.length_singleton] at last
    rw [nftsOf, last, ih]
    rfl

/-- Counts of different shells are added to those read before. -/
theorem exists_countsOf {entries : List StoredEntry} {stored : FeedCounts}
    (h : List.Forall₂ Counts entries stored) {counts : FeedCounts}
    (nodup : ((stored ++ counts).map (·.1)).Nodup) :
    ∃ read, countsOf counts entries = .ok read ∧ read.Perm (stored ++ counts) := by
  induction h generalizing counts with
  | nil => exact ⟨counts, rfl, .refl _⟩
  | @cons e c entries stored first _ ih =>
    obtain ⟨⟨collection, nft⟩, n⟩ := c
    have last : trailingIds? 2 e.key = some [collection, nft] := trailingIds?_of_endsWith first.key
    have absent : (collection, nft) ∉ counts.map (·.1) := by
      rw [List.cons_append, List.map_cons, List.nodup_cons, List.map_append] at nodup
      exact fun mem => nodup.1 (List.mem_append_right _ mem)
    -- the entry at hand is not among the counts read before, so it is added to them
    have moved : (stored ++ counts.insert (collection, nft) n).Perm
        (((collection, nft), n) :: stored ++ counts) :=
      ((FeedCounts.perm_insert absent n).append_left stored).trans List.perm_middle
    obtain ⟨read, eq, perm⟩ := ih ((moved.map _).nodup_iff.mpr nodup)
    refine ⟨read, ?_, perm.trans moved⟩
    rw [countsOf, last]
    exact first.value ▸ eq

/-! ### Short keys -/

theorem nftsOf_short {entries : List StoredEntry} (h : ∃ e ∈ entries, e.key.length < 4) :
    nftsOf entries = .error (.malformedKey "Uniques.Account") := by
  obtain ⟨e, mem, short⟩ := h
  induction mem with
  | head entries => rw [nftsOf, trailingIds?_of_short short]
  | tail first _ ih =>
    rw [nftsOf, ih]
    split <;> rfl

theorem countsOf_short {entries : List StoredEntry} (h : ∃ e ∈ entries, e.key.length < 8)
    (counts : FeedCounts) :
    countsOf counts entries = .error (.malformedKey "PwIncubation.OriginOfShellFoodStats") := by
  obtain ⟨e, mem, short⟩ := h
  induction mem generalizing counts with
  | head entries => rw [countsOf, trailingIds?_of_short short]
  | tail first _ ih =>
    rw [countsOf]
    split
    · exact ih _
    · rfl

section

variable {s : Storage σ} {node : σ} {now : Nat} {entries : List StoredEntry}

/-- What is read of a listing of owned shells. -/
theorem owned_of_listed {a : AccountId} {collection : Nat}
    (listed : s.owned node now a collection = .ok entries) :
    owned s node now a collection = nftsOf entries := by
  rw [owned, listed]
  rfl

/-- What is read of a listing of counts. -/
theorem food_of_listed {era : Nat} (listed : s.food node now era = .ok entries) :
    food s node now era = countsOf [] entries := by
  rw [food, listed]
  rfl

end

end ChainState

/-! ### Phases -/

/-- Whether a phase is about to list entries with a key too short for its ids, and which item of the
storage they are of. -/
inductive Visit.CutShort (sale : Sale σ) : Visit σ → String → Prop
  | owned {w : World σ Call} {owner : AccountName} {collection : Nat} {next : List Nat → Phase}
    {entries : List StoredEntry} :
    sale.storage.owned w.node w.now (sale.keyring.account owner) collection = .ok entries →
    (∃ e ∈ entries, e.key.length < 4) →
    CutShort sale ⟨w, .askOwned owner collection next⟩ "Uniques.Account"
  | food {w : World σ Call} {era : Nat} {next : FeedCounts → Phase} {entries : List StoredEntry} :
    sale.storage.food w.node w.now era = .ok entries →
    (∃ e ∈ entries, e.key.length < 8) →
    CutShort sale ⟨w, .askFood era next⟩ "PwIncubation.OriginOfShellFoodStats"

namespace Phase

variable {sale : Sale σ} {w : World σ Call}

/-- **A phase ends** where nothing is left to do, in the world that it has come to. -/
theorem run_of_halted {p : Phase} {v : Visit σ} (visited : v ∈ p.visits sale w)
    {result : Except Halt Unit} (halted : v.phase.resume (v.reply sale) = .error result) :
    p.run sale w = (result, v.after sale) := by
  induction w, p using run_induction sale with
  | step w p ih =>
    rw [visits_eq] at visited
    rw [run_eq]
    rcases List.mem_cons.mp visited with rfl | later
    · rw [halted]
    · cases left : p.resume (Visit.reply sale ⟨w, p⟩) with
      | ok q =>
        rw [left] at later
        exact ih q left later
      | error other =>
        rw [left] at later
        exact absurd later List.not_mem_nil

theorem run_of_cutShort {p : Phase} {v : Visit σ} (visited : v ∈ p.visits sale w) {item : String}
    (short : v.CutShort sale item) :
    p.run sale w = (.error (.error (.chainState (.malformedKey item))), v.world) := by
  cases short with
  | owned listed short =>
    refine run_of_halted visited ?_
    rw [Visit.reply, ChainState.owned_of_listed listed, ChainState.nftsOf_short short]
    rfl
  | food listed short =>
    refine run_of_halted visited ?_
    rw [Visit.reply, ChainState.food_of_listed listed, ChainState.countsOf_short short]
    rfl

/-- **What an incubation reads of listings.** From a key that ends with the bytes of ids, just these
ids are taken. So the shells of an account are read in the order of their listing, and of counts of
different shells each is read once, whatever stands in front of the ids in the keys. A key that is
too short for its ids fails the reading, and an incubation that comes to such a listing ends there
with this error, in the world that it has come to. -/
theorem incubation_listings (sale : Sale σ) (p : IncubationPlan) (w : World σ Call) :
    (∀ front ids, (∀ id ∈ ids, id < UInt32.size) →
      trailingIds? ids.length (front ++ ids.flatMap (Bytes.littleEndian 4)) = some ids) ∧
    (∀ node now a collection entries nfts,
      sale.storage.owned node now a collection = .ok entries →
      List.Forall₂ (fun e nft => EndsWith e.key [nft]) entries nfts →
      ChainState.owned sale.storage node now a collection = .ok nfts) ∧
    (∀ node now era entries (stored : FeedCounts), sale.storage.food node now era = .ok entries →
      List.Forall₂ ChainState.Counts entries stored → (stored.map (·.1)).Nodup →
      ∃ counts, ChainState.food sale.storage node now era = .ok counts ∧ counts.Perm stored) ∧
    (∀ node now a collection entries, sale.storage.owned node now a collection = .ok entries →
      (∃ e ∈ entries, e.key.length < 4) →
      ChainState.owned sale.storage node now a collection =
        .error (.malformedKey "Uniques.Account")) ∧
    (∀ node now era entries, sale.storage.food node now era = .ok entries →
      (∃ e ∈ entries, e.key.length < 8) →
      ChainState.food sale.storage node now era =
        .error (.malformedKey "PwIncubation.OriginOfShellFoodStats")) ∧
    ∀ v ∈ (incubation p).visits sale w, ∀ item, v.CutShort sale item →
      (incubation p).run sale w =
        (.error (.error (.chainState (.malformedKey item))), v.world) := by
  refine ⟨fun front ids small => trailingIds?_of_endsWith ⟨small, List.suffix_append front _⟩,
    ?_, ?_, ?_, ?_, fun v visited item short => run_of_cutShort visited short⟩
  · intro node now a collection entries nfts listed ends
    rw [ChainState.owned_of_listed listed, ChainState.nftsOf_eq_ok ends]
  -- counts are put together one after the other, from none
  · intro node now era entries stored listed counts nodup
    rw [ChainState.food_of_listed listed]
    have alone : ((stored ++ ([] : FeedCounts)).map (·.1)).Nodup := by rwa [List.append_nil]
    obtain ⟨read, eq, perm⟩ := ChainState.exists_countsOf counts alone
    rw [List.append_nil] at perm
    exact ⟨read, eq, perm⟩
  · intro node now a collection entries listed short
    rw [ChainState.owned_of_listed listed, ChainState.nftsOf_short short]
  · intro node now era entries listed short
    rw [ChainState.food_of_listed listed, ChainState.countsOf_short short]

end Phase

end ShellSale
