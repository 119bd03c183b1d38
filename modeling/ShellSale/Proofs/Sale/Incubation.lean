import ShellSale.Proofs.Sale.Serving

/-!
## What an incubation does

An incubation that nothing hinders goes through its steps in one order: the overlord enables it, the
accounts start it for their shells, they feed in round after round, and in the end the overlord
rewards the shells that were fed most by then. What becomes of starts and feedings is waited for but
decides nothing.

* `Phase.exists_turns_feed`: the feeding rounds come one after the other.
* `Phase.exists_listed_lookUpOwned`: what the incubators own is read when incubation is enabled, and
  `Phase.run_of_not_looksUp`: not at all if the plan names owners.
* `Phase.incubates_run`: what is done once incubation is enabled.
* `Phase.incubation_spec` is the main result.
-/

namespace ShellSale

variable {σ τ : Type}

/-! ### Calls by account -/

theorem ownOf_map {α β : Type} (name : AccountName) (xs : List β) (owner : β → AccountName)
    (f : β → α) : ownOf name (xs.map fun x => (owner x, f x)) =
      (xs.filter fun x => owner x = name).map f := by
  rw [ownOf, List.filter_map, List.map_map]
  rfl

theorem ownOf_flatMap {α β : Type} (name : AccountName) (xs : List β) (owner : β → AccountName)
    (f : β → List α) : ownOf name (xs.flatMap fun x => (f x).map fun a => (owner x, a)) =
      (xs.filter fun x => owner x = name).flatMap f := by
  induction xs with
  | nil => rfl
  | cons x rest ih =>
    have first : ownOf name ((f x).map fun a => (owner x, a)) =
        if owner x = name then f x else [] := by
      by_cases mine : owner x = name
      · simp [ownOf, mine, List.filter_map, Function.comp_def]
      · simp [ownOf, mine, List.filter_map, Function.comp_def]
    rw [List.flatMap_cons, ownOf_append, ih, first]
    by_cases mine : owner x = name
    · simp [mine]
    · simp [mine]

namespace IncubationPlan

/-- The shells that the plan names for an account, in the order of the plan. -/
def named (p : IncubationPlan) (name : AccountName) : List Nat :=
  (p.holdings.filter fun h => h.account = name).flatMap (·.nfts)

/-- The shells that an account owns on the chain, once for each time that it is an incubator. -/
def found (p : IncubationPlan) (owned : AccountName → List Nat) (name : AccountName) : List Nat :=
  (p.incubators.filter fun other => other = name).flatMap owned

/-- **The shells of the accounts to incubate**: those that the plan names if it names any owners,
and otherwise those that the chain lists for the incubators in a world. -/
def Shells (p : IncubationPlan) (sale : Sale σ) (collection : Nat) (w : World σ Call)
    (shells : AccountName → List Nat) : Prop :=
  p.holdings ≠ [] ∧ shells = p.named ∨
    p.holdings = [] ∧ ∃ owned, (∀ name ∈ p.incubators,
      ChainState.owned sale.storage w.node w.now (sale.keyring.account name) collection =
        .ok (owned name)) ∧ shells = p.found owned

end IncubationPlan

/-- The calls by which the accounts start to incubate their shells. -/
def startsOf (collection : Nat) (shells : AccountName → List Nat) (name : AccountName) :
    List Call :=
  (shells name).map (.startIncubation collection)

/-- The calls of a round by which the accounts feed shells. -/
def feedsOf (collection : Nat) (round : List Feeding) (name : AccountName) : List Call :=
  (round.filter fun f => f.account = name).map fun f => .feedOriginOfShell collection f.nft

/-- Turns of the accounts one after the other: when a turn begins, all waits of those before are
over. -/
inductive Sale.Turns (sale : Sale σ) :
    World σ Call → List (AccountName → List Call) → World σ Call → Prop
  | nil (w : World σ Call) : Turns sale w [] w
  | cons {w u w' : World σ Call} {calls : AccountName → List Call}
    {rest : List (AccountName → List Call)} (turn : sale.Turn w u calls)
    (turns : Turns sale u rest w') : Turns sale w (calls :: rest) w'

namespace Phase

variable {sale : Sale σ} {w : World σ Call}

/-! ### Feeding -/

/-- **The feeding rounds** come one after the other. -/
theorem exists_turns_feed (distinct : Function.Injective sale.keyring.account) {collection : Nat}
    {next : Phase} {rounds : List (List Feeding)} {number : Nat}
    (h : sale.Unhindered ((feed collection next number rounds).run sale w)) :
    ∃ u, sale.Turns w (rounds.map (feedsOf collection)) u ∧
      (feed collection next number rounds).run sale w = next.run sale u := by
  induction rounds generalizing w number with
  | nil => exact ⟨w, .nil w, rfl⟩
  | cons round rest ih =>
    rw [feed] at h ⊢
    obtain ⟨u, turn, ran⟩ := exists_turn_run distinct h
    rw [ran] at h ⊢
    obtain ⟨u', turns, ran⟩ := ih h
    have feeds : (fun name => ownOf name (round.map fun f =>
        (f.account, Call.feedOriginOfShell collection f.nft))) = feedsOf collection round :=
      funext fun name => ownOf_map name round _ _
    exact ⟨u', .cons (feeds ▸ turn) turns, ran⟩

/-! ### Shells -/

theorem exists_told_tellOwned (name : AccountName) (nfts : List Nat) (next : Phase) :
    ∃ u, World.Told sale.client w u ∧ (tellOwned name nfts next).run sale w = next.run sale u := by
  induction nfts generalizing w with
  | nil => exact ⟨w, .refl sale.client w, rfl⟩
  | cons nft rest ih =>
    obtain ⟨u, told, ran⟩ := ih
    exact ⟨u, (World.Told.say sale.client w _ _).trans told, ran⟩

/-- **Looking up what accounts own**: the chain lists it for each of them, at one moment, and the
run goes on with all that it lists. -/
theorem exists_listed_lookUpOwned {collection : Nat} {next : List (AccountName × Nat) → Phase}
    {names : List AccountName} {found : List (AccountName × Nat)} {owned : AccountName → List Nat}
    (listed : ∀ name nfts, ChainState.owned sale.storage w.node w.now (sale.keyring.account name)
      collection = .ok nfts → owned name = nfts)
    (h : sale.Unhindered ((lookUpOwned collection next found names).run sale w)) :
    (∀ name ∈ names, ChainState.owned sale.storage w.node w.now (sale.keyring.account name)
      collection = .ok (owned name)) ∧
    ∃ u, World.Told sale.client w u ∧
      (lookUpOwned collection next found names).run sale w =
        (next (found ++ names.flatMap fun name => (owned name).map fun nft => (name, nft))).run
          sale u := by
  induction names generalizing w found with
  | nil => exact ⟨by simp, w, .refl sale.client w, by rw [List.flatMap_nil, List.append_nil]; rfl⟩
  | cons name rest ih =>
    rw [lookUpOwned, run] at h ⊢
    obtain ⟨nfts, answer, ran⟩ := exists_answer h
    rw [ran] at h ⊢
    obtain ⟨u, told, ran⟩ := exists_told_tellOwned name nfts
      (lookUpOwned collection next (found ++ nfts.map fun nft => (name, nft)) rest)
    rw [ran] at h ⊢
    -- telling what was found changes nothing that the next reading depends on
    rw [← told.node, ← told.now] at listed
    obtain ⟨others, u', told', ran⟩ := ih listed h
    rw [told.node, told.now] at others listed
    obtain rfl := listed name nfts answer
    refine ⟨List.forall_mem_cons.mpr ⟨answer, others⟩, u', told.trans told', ?_⟩
    rw [ran, List.flatMap_cons, List.append_assoc]

/-- **The shells to incubate** in a run that nothing hinders. -/
theorem exists_shells_withShells {p : IncubationPlan} {collection : Nat}
    {next : List (AccountName × Nat) → Phase}
    (h : sale.Unhindered ((withShells p collection next).run sale w)) :
    ∃ items u, World.Told sale.client w u ∧
      p.Shells sale collection w (fun name => ownOf name items) ∧
      (withShells p collection next).run sale w = (next items).run sale u := by
  unfold withShells at h ⊢
  split at h
  · rename_i none
    rw [if_pos none]
    -- what the node lists, and nothing for an account whose listing has no answer
    let owned (name : AccountName) : List Nat :=
      (ChainState.owned sale.storage w.node w.now (sale.keyring.account name)
        collection).toOption.getD []
    have listed : ∀ name nfts, ChainState.owned sale.storage w.node w.now
        (sale.keyring.account name) collection = .ok nfts → owned name = nfts := by
      intro name nfts answer
      simp only [owned, answer, Except.toOption, Option.getD_some]
    obtain ⟨answers, u, told, ran⟩ := exists_listed_lookUpOwned listed h
    refine ⟨_, u, told, Or.inr ⟨List.isEmpty_iff.mp none, owned, answers, ?_⟩, ran⟩
    exact funext fun name => ownOf_flatMap name p.incubators id owned
  · rename_i some
    rw [if_neg some]
    refine ⟨_, w, .refl sale.client w, Or.inl ⟨by simpa using some, ?_⟩, rfl⟩
    exact funext fun name => ownOf_flatMap name p.holdings _ _

/-! ### Lookups -/

/-- Whether a phase may look up what an account owns, behind some answers of the chain. -/
def LooksUp : Phase → Prop
  | done | fail _ | overflow _ => False
  | admin _ _ _ _ next => next.LooksUp
  | users _ _ next => next.LooksUp
  | say _ next => next.LooksUp
  | askCollection next => ∃ x, (next x).LooksUp
  | askEra next => ∃ x, (next x).LooksUp
  | askOwned .. => True
  | askFood _ next => ∃ x, (next x).LooksUp

/-- A phase that looks up nothing does the same whatever the chain lists. -/
theorem run_of_not_looksUp (sale : Sale σ) (w : World σ Call) {p : Phase} (never : ¬p.LooksUp)
    (owned : σ → Nat → AccountId → Nat → Except StorageFault (List StoredEntry)) :
    p.run { sale with storage := { sale.storage with owned } } w = p.run sale w := by
  induction p generalizing w with
  | done | fail | overflow => rfl
  | admin step signer mode calls next ih =>
    rw [run_admin, run_admin]
    simp only [ih _ never]
    rfl
  | users step calls next ih =>
    rw [run_users, run_users]
    simp only [ih _ never]
    rfl
  | say text next ih => exact ih _ never
  | askCollection next ih =>
    rw [run, run]
    exact congrArg (onAnswer w _) (funext fun x => ih x _ fun looks => never ⟨x, looks⟩)
  | askEra next ih =>
    rw [run, run]
    exact congrArg (onAnswer w _) (funext fun x => ih x _ fun looks => never ⟨x, looks⟩)
  | askOwned owner collection next ih => exact absurd trivial never
  | askFood era next ih =>
    rw [run, run]
    exact congrArg (onAnswer w _) (funext fun x => ih x _ fun looks => never ⟨x, looks⟩)

theorem looksUp_feed {collection : Nat} {next : Phase} {number : Nat}
    {rounds : List (List Feeding)} (looks : (feed collection next number rounds).LooksUp) :
    next.LooksUp := by
  induction rounds generalizing number with
  | nil => exact looks
  | cons round rest ih => exact ih looks

theorem not_looksUp_reward (reductions : List Nat) : ¬(reward reductions).LooksUp := by
  rintro ⟨era, counts, looks⟩
  simp only [LooksUp] at looks
  split at looks
  · exact looks
  · exact looks

/-- An incubation looks up nothing if the plan names owners. -/
theorem not_looksUp_incubation {p : IncubationPlan} (named : p.holdings ≠ []) :
    ¬(incubation p).LooksUp := by
  have never : ∀ collection, ¬(incubate p collection).LooksUp := by
    intro collection looks
    have some : ¬p.holdings.isEmpty = true := by simpa using named
    rw [incubate, decree, LooksUp, withShells, if_neg some] at looks
    exact not_looksUp_reward _ (looksUp_feed looks)
  unfold incubation
  split
  · exact never _
  · rintro ⟨_ | collection, looks⟩
    · exact looks
    · exact never collection looks

/-! ### Whole incubations -/

/-- **The end of an incubation**: the era and how often shells were fed in it are read in the same
world, and the overlord hands out the reductions along the ranking of these counts, if there is
anything to hand out. -/
def Rewards (sale : Sale σ) (reductions : List Nat) (w : World σ Call)
    (q : Except Halt Unit × World σ Call) : Prop :=
  ∃ era counts, ChainState.era sale.storage w.node w.now = .ok era ∧
    ChainState.food sale.storage w.node w.now era = .ok counts ∧
    let ranked := rankHatchTimes counts reductions
    if ranked = [] then q.1 = .ok () ∧ q.2.sent = w.sent
    else ∃ outcome nonce s,
      sale.Decree w q.2 (sale.keyring.account .overlord) (.updateIncubationTime ranked) outcome
        nonce s ∧
      q.1 = if outcome.isAccepted then .ok ()
        else .error (.error (.notAccepted "Update incubation times" 1 1 outcome))

theorem rewards_run {reductions : List Nat}
    (h : sale.Unhindered ((reward reductions).run sale w)) :
    Rewards sale reductions w ((reward reductions).run sale w) := by
  rw [reward, run] at h ⊢
  obtain ⟨era, era_eq, ran⟩ := exists_answer h
  rw [ran, run] at h ⊢
  obtain ⟨counts, counts_eq, ran⟩ := exists_answer h
  rw [ran, run] at h ⊢
  refine ⟨era, counts, era_eq, counts_eq, ?_⟩
  have told := World.Told.say sale.client w .info
    ("🍽️ " ++ toString counts.length ++ " Origin of Shells fed in era " ++ toString era)
  dsimp only at h ⊢
  split
  · rename_i none
    rw [if_pos (by rw [none]; rfl)]
    exact ⟨rfl, (World.sent_line _ _).trans told.sent⟩
  · rename_i some
    have some : ¬(rankHatchTimes counts reductions).isEmpty = true := by simpa using some
    rw [if_neg some] at h ⊢
    obtain ⟨u, outcome, nonce, s, decreed, ran⟩ := exists_decree_run h
    rw [ran]
    refine ⟨outcome, nonce, s, ?_, ?_⟩
    · split
      · exact decreed.since told
      · exact decreed.since told
    · split
      · rfl
      · rfl

/-- **What is done once incubation is enabled**: the accounts start it for their shells, then they
feed in round after round, and then come the rewards. -/
def Incubates (sale : Sale σ) (p : IncubationPlan) (collection : Nat) (w : World σ Call)
    (q : Except Halt Unit × World σ Call) : Prop :=
  ∃ shells w', p.Shells sale collection w shells ∧
    sale.Turns w (startsOf collection shells :: p.rounds.map (feedsOf collection)) w' ∧
    Rewards sale p.reductions w' q

theorem incubates_run (distinct : Function.Injective sale.keyring.account) {p : IncubationPlan}
    {collection : Nat} {step : String} {phase : Phase}
    (phase_eq : phase = withShells p collection fun shells =>
      users step (shells.map fun (name, nft) => (name, .startIncubation collection nft)) <|
      feed collection (reward p.reductions) 1 p.rounds)
    (h : sale.Unhindered (phase.run sale w)) :
    Incubates sale p collection w (phase.run sale w) := by
  subst phase_eq
  obtain ⟨items, u, told, shells, ran⟩ := exists_shells_withShells h
  rw [ran] at h ⊢
  obtain ⟨u', turn, ran⟩ := exists_turn_run distinct h
  rw [ran] at h ⊢
  obtain ⟨w', turns, ran⟩ := exists_turns_feed distinct h
  rw [ran] at h ⊢
  have starts : (fun name => ownOf name (items.map fun (name, nft) =>
      (name, Call.startIncubation collection nft))) =
      startsOf collection fun name => ownOf name items := by
    funext name
    refine (ownOf_map name items (·.1) fun item => Call.startIncubation collection item.2).trans ?_
    rw [startsOf, ownOf, List.map_map]
    rfl
  exact ⟨_, w', shells, .cons ((starts ▸ turn).since told) turns, rewards_run h⟩

/-- **What an incubation does** that nothing hinders. If the plan names owners, it is the same
whatever the chain lists as owned. It uses one collection, that of the plan or else the one that the
chain knows, and ends at once if there is none. The overlord enables incubation; unless that is
final and was not reverted, nothing more is handed over. Then each account starts the incubation of
its shells and feeds in round after round, and in the end the overlord hands out the reductions.
Whatever becomes of the calls of the accounts, the incubation takes the same steps and ends alike if
it learns the same apart from that. -/
theorem incubation_spec (sale : Sale σ) (p : IncubationPlan) (w : World σ Call)
    (distinct : Function.Injective sale.keyring.account)
    (unhindered : sale.Unhindered ((incubation p).run sale w)) :
    let q := (incubation p).run sale w
    (p.holdings ≠ [] → ∀ owned,
      (incubation p).run { sale with storage := { sale.storage with owned } } w = q) ∧
    (p.collection = none ∧ ChainState.collection sale.storage w.node w.now = .ok none ∧
        q = (.error (.error .noCollection), w) ∨
      ∃ collection, (p.collection = some collection ∨ p.collection = none ∧
          ChainState.collection sale.storage w.node w.now = .ok (some collection)) ∧
        ∃ u outcome nonce s,
          sale.Decree w u (sale.keyring.account .overlord) (.setCanStartIncubationStatus true)
            outcome nonce s ∧
          if outcome.isAccepted then Incubates sale p collection u q
          else q =
            (.error (.error (.notAccepted "Enable the incubation process" 1 1 outcome)), u)) ∧
    ∀ (other : Sale τ) (v : World τ Call),
      LearnAlike sale other ((incubation p).visits sale w) ((incubation p).visits other v) →
        ((incubation p).visits sale w).map (·.phase) =
            ((incubation p).visits other v).map (·.phase) ∧
          q.1 = ((incubation p).run other v).1 := by
  intro q
  -- once the collection is known, the overlord enables the process in it
  have enabled : ∀ collection, sale.Unhindered ((incubate p collection).run sale w) →
      ∃ u outcome nonce s,
        sale.Decree w u (sale.keyring.account .overlord) (.setCanStartIncubationStatus true)
          outcome nonce s ∧
        if outcome.isAccepted then
          Incubates sale p collection u ((incubate p collection).run sale w)
        else (incubate p collection).run sale w =
          (.error (.error (.notAccepted "Enable the incubation process" 1 1 outcome)), u) := by
    intro collection h
    rw [incubate] at h ⊢
    obtain ⟨u, outcome, nonce, s, decreed, ran⟩ := exists_decree_run h
    refine ⟨u, outcome, nonce, s, decreed, ?_⟩
    rw [ran] at h ⊢
    split
    · rename_i accepted
      rw [if_pos accepted] at h
      exact incubates_run distinct rfl h
    · rfl
  refine ⟨fun named => run_of_not_looksUp sale w (not_looksUp_incubation named), ?_,
    fun other v => run_alike sale other w v (incubation p)⟩
  -- the collection is in the plan or read off the chain
  cases known : p.collection with
  | some collection =>
    have phase : incubation p = incubate p collection :=
      congrArg (fun c => incubation { p with collection := c }) known
    have reached : q = (incubate p collection).run sale w := congrArg (run sale w) phase
    rw [phase] at unhindered
    rw [reached]
    exact Or.inr ⟨collection, Or.inl rfl, enabled collection unhindered⟩
  | none =>
    have phase : q = (incubation { p with collection := none }).run sale w :=
      congrArg (fun c => (incubation { p with collection := c }).run sale w) known
    have asked : sale.Unhindered ((incubation { p with collection := none }).run sale w) :=
      phase ▸ unhindered
    obtain ⟨answer, collection_eq, ran⟩ := exists_answer asked
    have reached : q = _ := phase.trans ran
    rw [show (incubation p).run sale w = _ from reached] at unhindered
    rw [reached]
    cases answer with
    | none => exact Or.inl ⟨rfl, collection_eq, rfl⟩
    | some collection =>
      exact Or.inr ⟨collection, Or.inr ⟨rfl, collection_eq⟩, enabled collection unhindered⟩

/-- Bob and Charlie incubate their shells and feed them in two rounds, in which they take turns. The
plan has Bob's shells in two places. The node never reports on the calls of the two, so all waits
for them time out. A shell of each was fed in the era, Charlie's more often, so it gets the first
reduction. -/
theorem incubation_spec_by_turns :
    let sale : Sale Unit :=
      { client :=
          { nonce := fun _ _ _ => (.ok 5, ())
            handOver := fun _ _ _ _ call =>
              match call with
              | .startIncubation .. | .feedOriginOfShell .. => ({}, ())
              | _ => ({ feed := [(0, .event (.finalized (.ofNat 1) []))] }, ())
            errors := fun _ _ => none }
        storage :=
          { collection := fun _ _ => .ok (some 1), era := fun _ _ => .ok 3
            owned := fun _ _ _ _ => .ok []
            food := fun _ _ _ =>
              .ok [⟨[1, 0, 0, 0, 2, 0, 0, 0], 4⟩, ⟨[1, 0, 0, 0, 7, 0, 0, 0], 9⟩] }
        keyring := ⟨fun name => .ofNat name.index⟩
        options := { timeout := 1000 } }
    let round : List Feeding := [⟨.bob, 2⟩, ⟨.charlie, 7⟩, ⟨.bob, 3⟩]
    let round' : List Feeding := [⟨.charlie, 7⟩, ⟨.bob, 2⟩]
    let plan : IncubationPlan :=
      { holdings := [⟨.bob, [2]⟩, ⟨.charlie, [7]⟩, ⟨.bob, [3]⟩], rounds := [round, round']
        reductions := [60, 30] }
    let w : World Unit Call := { node := () }
    let q := (incubation plan).run sale w
    let callsOf (v : World Unit Call) (name : AccountName) : List Call :=
      (v.sentBy (sale.keyring.account name)).map (·.call)
    Function.Injective sale.keyring.account ∧ sale.Unhindered q ∧ q.1 = .ok () ∧
      ∃ w₁ w₂ w₃ nonce,
        callsOf w₁ .bob = [.startIncubation 1 2, .startIncubation 1 3] ∧
        callsOf w₁ .charlie = [.startIncubation 1 7] ∧
        sale.Turn w₁ w₂ (feedsOf 1 round) ∧
        callsOf w₂ .bob =
          callsOf w₁ .bob ++ [.feedOriginOfShell 1 2, .feedOriginOfShell 1 3] ∧
        callsOf w₂ .charlie = callsOf w₁ .charlie ++ [.feedOriginOfShell 1 7] ∧
        sale.Turn w₂ w₃ (feedsOf 1 round') ∧
        callsOf w₃ .bob = callsOf w₂ .bob ++ [.feedOriginOfShell 1 2] ∧
        callsOf w₃ .charlie = callsOf w₂ .charlie ++ [.feedOriginOfShell 1 7] ∧
        q.2.sent = w₃.sent ++ [⟨sale.keyring.account .overlord, nonce,
          .updateIncubationTime [((1, 7), 60), ((1, 2), 30)]⟩] := by
  intro sale round round' plan w q callsOf
  have served : sale.Served 3 :=
    { unsignalled := rfl
      distinct := Keyring.injective_of_collision? (by decide)
      nonces := ⟨fun _ _ _ => ⟨5, (), rfl, by decide⟩⟩
      collection := fun _ _ => ⟨_, rfl⟩
      era := fun _ _ => ⟨_, rfl⟩
      owned := fun _ _ _ _ => ⟨_, rfl⟩
      food := fun _ _ _ => ⟨_, rfl⟩ }
  have unhindered : sale.Unhindered q :=
    unhindered_of_served served rfl (within_incubation (by decide) (by simp [plan]) (by decide)
      (by decide))
  have ranked : rankHatchTimes [((1, 2), 4), ((1, 7), 9)] [60, 30] =
      [((1, 7), 60), ((1, 2), 30)] := by
    simp [rankHatchTimes, FeedCounts.ranking, List.mergeSort, FeedCounts.ranksFirst]
  obtain ⟨-, known, -⟩ := incubation_spec (τ := Unit) sale plan w served.distinct unhindered
  -- the collection is known, the overlord enables the process, and so the accounts take their turns
  rcases known with ⟨-, none, -⟩ | ⟨collection, given, u, outcome, nonce, s, enabled, ran⟩
  · cases none
  rw [if_pos (enabled.isAccepted fun _ _ _ => ⟨_, _, rfl, rfl⟩)] at ran
  obtain ⟨shells, w₃, owned, turns, era, counts, -, read, rewards⟩ := ran
  obtain rfl : collection = 1 := by
    rcases given with known | ⟨-, known⟩
    · cases known
    · exact (Option.some.inj (Except.ok.inj known)).symm
  obtain rfl : shells = plan.named := by
    rcases owned with ⟨-, named⟩ | ⟨none, -⟩
    · exact named
    · cases none
  obtain rfl : [((1, 2), 4), ((1, 7), 9)] = counts := Except.ok.inj read
  rw [show plan.reductions = [60, 30] from rfl, ranked, if_neg (by simp)] at rewards
  obtain ⟨outcome', nonce', s', rewarded, answer⟩ := rewards
  rw [if_pos (rewarded.isAccepted fun _ _ _ => ⟨_, _, rfl, rfl⟩)] at answer
  -- before their starts, neither Bob nor Charlie has made a call
  have unsent : u.sentBy (sale.keyring.account .bob) = [] ∧
      u.sentBy (sale.keyring.account .charlie) = [] := by
    rw [World.sentBy, World.sentBy, enabled.sent]
    exact ⟨rfl, rfl⟩
  obtain _ | ⟨started, _ | ⟨fed, _ | ⟨fed', _ | _⟩⟩⟩ := turns
  have bob := started.map_call .bob
  have charlie := started.map_call .charlie
  rw [unsent.1] at bob
  rw [unsent.2] at charlie
  exact ⟨served.distinct, unhindered, answer, _, _, _, nonce', bob, charlie, fed,
    fed.map_call .bob, fed.map_call .charlie, fed', fed'.map_call .bob, fed'.map_call .charlie,
    rewarded.sent⟩

end Phase

end ShellSale
