import Intcode.Chain.Search
import Intcode.Proofs.Orderings.Complete

/-!
# The search finds the best settings

`best_phase_sequence` (`Chain.search`) runs the chain with one ordering of its settings after the
other. It is given fuel for each run; `Gives` and `Finds` say what the runs and the search come to
with enough of it. One step of the search is `searches_cons_iff`: the next run finishes, and the
search goes on with the better of two signals, or it faults, and so does the search. Everything else
is by induction on the orderings that are left.

What the search keeps on its way is the earliest of the greatest signals so far (`Leads`). Since
`orderings` leaves out no rearrangement, at the end this is the greatest signal that any
rearrangement of the settings gives; so it does not depend on the order in which they were given.

Results:
* `Gives.unique`, `Finds.unique`: more fuel does not change what a run or a search has come to.
* `finds_faulted_iff`: the search faults like the first ordering that faults.
* `Leads.snoc`, `Searches.leads`: what one run of the search preserves, and what the whole search
  does.
* `finds_finished_iff`: the search finishes with the earliest of the greatest signals.
* **`search_is_optimal`**: all that in terms of rearrangements.
-/

namespace Intcode.Chain

/-! ## Fuel -/

theorem Network.settle_add (extra : Nat) : ∀ {fuel last : Nat} {net final : Network},
    net.settle fuel last = some final → net.settle (fuel + extra) last = some final
  | 0, _, _, _, h => by cases h
  | fuel + 1, last, net, final, h => by
    rw [Nat.add_right_comm]
    rw [settle] at h ⊢
    cases hfire : net.fireNext? last with
    | none =>
      rw [hfire] at h
      exact h
    | some fired =>
      rw [hfire] at h
      exact settle_add extra h

/-- A run that has ended ends the same way with more fuel. -/
theorem run_of_le {chain : Chain} {fuel more : Nat} {ending : Ending (Option Word)}
    (h : chain.run fuel = ending) (hended : ending ≠ .unfinished) (hle : fuel ≤ more) :
    chain.run more = ending := by
  obtain ⟨extra, rfl⟩ := Nat.exists_eq_add_of_le hle
  unfold run at h ⊢
  cases hsettle : chain.wire.settle fuel 0 with
  | none =>
    rw [hsettle] at h
    exact absurd h.symm hended
  | some net =>
    rw [hsettle] at h
    rw [Network.settle_add extra hsettle]
    exact h

/-- With these settings, and fuel enough, the run of the chain ends like this. -/
def Gives (chain : Chain) (phases : List Word) (ending : Ending (Option Word)) : Prop :=
  ending ≠ .unfinished ∧ ∃ fuel, ({ chain with phases } : Chain).run fuel = ending

/-- With fuel enough, the search over these settings, having found `best` before, ends like this. -/
def Searches (chain : Chain) (best : Option Best) (list : List (List Word))
    (ending : Ending (Option Best)) : Prop :=
  ending ≠ .unfinished ∧ ∃ fuel, searchFrom fuel chain best list = ending

/-- With fuel enough, the search for the best ordering of the settings ends like this. -/
def Finds (chain : Chain) (ending : Ending (Option Best)) : Prop :=
  ending ≠ .unfinished ∧ ∃ fuel, chain.search fuel = ending

theorem finds_iff_searches {chain : Chain} {ending : Ending (Option Best)} :
    chain.Finds ending ↔ chain.Searches none (orderings chain.phases) ending := Iff.rfl

variable {chain : Chain} {phases : List Word} {list seen : List (List Word)} {best : Option Best}

/-- A run ends in one way only. -/
theorem Gives.unique {ending other : Ending (Option Word)} (h : chain.Gives phases ending)
    (h' : chain.Gives phases other) : ending = other := by
  obtain ⟨hended, fuel, hfuel⟩ := h
  obtain ⟨hended', fuel', hfuel'⟩ := h'
  rw [← run_of_le hfuel hended (Nat.le_max_left fuel fuel'),
    run_of_le hfuel' hended' (Nat.le_max_right fuel fuel')]

theorem searchFrom_of_le {fuel more : Nat} {ending : Ending (Option Best)}
    (h : searchFrom fuel chain best list = ending) (hended : ending ≠ .unfinished)
    (hle : fuel ≤ more) : searchFrom more chain best list = ending := by
  induction list generalizing best with
  | nil => exact h
  | cons phases rest ih =>
    rw [searchFrom] at h ⊢
    cases hrun : ({ chain with phases } : Chain).run fuel with
    | unfinished =>
      rw [hrun] at h
      exact absurd h.symm hended
    | faulted fault =>
      rw [hrun] at h
      rw [run_of_le hrun (by simp) hle]
      exact h
    | finished result =>
      rw [hrun] at h
      rw [run_of_le hrun (by simp) hle]
      cases result with
      | none => exact ih h
      | some signal => exact ih h

/-- A search ends in one way only. -/
theorem Finds.unique {ending other : Ending (Option Best)} (h : chain.Finds ending)
    (h' : chain.Finds other) : ending = other := by
  obtain ⟨hended, fuel, hfuel⟩ := h
  obtain ⟨hended', fuel', hfuel'⟩ := h'
  unfold search at hfuel hfuel'
  rw [← searchFrom_of_le hfuel hended (Nat.le_max_left fuel fuel'),
    searchFrom_of_le hfuel' hended' (Nat.le_max_right fuel fuel')]

/-! ## One run of the search -/

/-- The best so far after a run that finished with a result. -/
def Best.afterRun (best : Option Best) (phases : List Word) : Option Word → Option Best
  | none => best
  | some signal => some (update best signal phases)

theorem searchFrom_of_finished {fuel : Nat} {result : Option Word}
    (h : ({ chain with phases } : Chain).run fuel = .finished result) :
    searchFrom fuel chain best (phases :: list) =
      searchFrom fuel chain (Best.afterRun best phases result) list := by
  rw [searchFrom, h]
  cases result <;> rfl

theorem searches_nil_iff {ending : Ending (Option Best)} :
    chain.Searches best [] ending ↔ ending = .finished best := by
  constructor
  · rintro ⟨-, fuel, rfl⟩
    rfl
  · rintro rfl
    exact ⟨by simp, 0, rfl⟩

/-- **One run of the search**: it finishes, and the search goes on with the better of two, or it
faults, and so does the search. -/
theorem searches_cons_iff {ending : Ending (Option Best)} :
    chain.Searches best (phases :: list) ending ↔
      (∃ result, chain.Gives phases (.finished result) ∧
        chain.Searches (Best.afterRun best phases result) list ending) ∨
      ∃ fault, chain.Gives phases (.faulted fault) ∧ ending = .faulted fault := by
  constructor
  · rintro ⟨hended, fuel, hfuel⟩
    cases hrun : ({ chain with phases } : Chain).run fuel with
    | unfinished =>
      rw [searchFrom, hrun] at hfuel
      exact absurd hfuel.symm hended
    | faulted fault =>
      rw [searchFrom, hrun] at hfuel
      exact .inr ⟨fault, ⟨by simp, fuel, hrun⟩, hfuel.symm⟩
    | finished result =>
      rw [searchFrom_of_finished hrun] at hfuel
      exact .inl ⟨result, ⟨by simp, fuel, hrun⟩, hended, fuel, hfuel⟩
  · rintro (⟨result, ⟨hfinished, fuel, hrun⟩, hended, fuel', hrest⟩ | ⟨fault, ⟨-, fuel, hrun⟩, rfl⟩)
    · refine ⟨hended, max fuel fuel', ?_⟩
      rw [searchFrom_of_finished (run_of_le hrun hfinished (Nat.le_max_left fuel fuel'))]
      exact searchFrom_of_le hrest hended (Nat.le_max_right fuel fuel')
    · refine ⟨by simp, fuel, ?_⟩
      rw [searchFrom, hrun]

/-! ## Searches that fault -/

/-- The search faults like the first run that faults, if those before it finish. -/
theorem searches_faulted_iff {fault : Fault} :
    chain.Searches best list (.faulted fault) ↔
      ∃ (k : Nat) (phases : List Word), list[k]? = some phases ∧
        chain.Gives phases (.faulted fault) ∧
        ∀ j < k, ∀ other, list[j]? = some other →
          ∃ result, chain.Gives other (.finished result) := by
  induction list generalizing best with
  | nil => simp [searches_nil_iff]
  | cons first rest ih =>
    rw [searches_cons_iff]
    constructor
    · rintro (⟨result, hfirst, hrest⟩ | ⟨other, hfirst, heq⟩)
      · obtain ⟨k, phases, hk, hphases, hbefore⟩ := ih.mp hrest
        refine ⟨k + 1, phases, hk, hphases, fun j hj other hother => ?_⟩
        cases j with
        | zero =>
          cases hother
          exact ⟨result, hfirst⟩
        | succ j => exact hbefore j (by omega) other hother
      · cases heq
        exact ⟨0, first, rfl, hfirst, fun j hj => absurd hj (Nat.not_lt_zero j)⟩
    · rintro ⟨k, phases, hk, hphases, hbefore⟩
      cases k with
      | zero =>
        cases hk
        exact .inr ⟨fault, hphases, rfl⟩
      | succ k =>
        obtain ⟨result, hresult⟩ := hbefore 0 (Nat.succ_pos k) first rfl
        refine .inl ⟨result, hresult, ih.mpr ⟨k, phases, hk, hphases, fun j hj => ?_⟩⟩
        exact hbefore (j + 1) (by omega)

/-- If all runs end, the search ends. -/
theorem exists_searches (h : ∀ phases ∈ list, ∃ ending, chain.Gives phases ending) :
    ∃ ending, chain.Searches best list ending := by
  induction list generalizing best with
  | nil => exact ⟨_, searches_nil_iff.mpr rfl⟩
  | cons first rest ih =>
    obtain ⟨ending, hfirst⟩ := h first List.mem_cons_self
    have hrest := fun phases hphases => h phases (List.mem_cons_of_mem first hphases)
    cases ending with
    | unfinished => exact absurd rfl hfirst.1
    | faulted fault => exact ⟨_, searches_cons_iff.mpr (.inr ⟨fault, hfirst, rfl⟩)⟩
    | finished result =>
      obtain ⟨ending, hending⟩ := @ih (Best.afterRun best first result) hrest
      exact ⟨ending, searches_cons_iff.mpr (.inl ⟨result, hfirst, hending⟩)⟩

/-! ## Searches that finish -/

/-- **The earliest of the greatest signals** that the settings seen so far have given. -/
structure Tops (chain : Chain) (seen : List (List Word)) (best : Best) : Prop where
  greatest : ∀ phases ∈ seen, ∀ signal, chain.Gives phases (.finished (some signal)) →
    signal.val ≤ best.signal.val
  gives : chain.Gives best.phases (.finished (some best.signal))
  earliest : ∃ k : Nat, seen[k]? = some best.phases ∧ ∀ j < k, ∀ phases, seen[j]? = some phases →
    ¬ chain.Gives phases (.finished (some best.signal))

/-- What the search knows after the settings seen so far: none of them has given a signal, or it has
the earliest of the greatest. -/
def Leads (chain : Chain) (seen : List (List Word)) : Option Best → Prop
  | none => ∀ phases ∈ seen, chain.Gives phases (.finished none)
  | some best => chain.Tops seen best

/-- A signal that beats all before is on top. -/
theorem tops_of_lt {signal : Word} (hgives : chain.Gives phases (.finished (some signal)))
    (hbeats : ∀ other ∈ seen, ∀ value, chain.Gives other (.finished (some value)) →
      value.val < signal.val) :
    chain.Tops (seen ++ [phases]) ⟨signal, phases⟩ := by
  refine ⟨fun other hother value hvalue => ?_, hgives, seen.length, by simp,
    fun j hj other hother hattains => ?_⟩
  · rcases List.mem_append.mp hother with hother | hother
    · exact Int.le_of_lt (hbeats other hother value hvalue)
    · obtain rfl := List.mem_singleton.mp hother
      cases hvalue.unique hgives
      exact Int.le_refl _
  · rw [List.getElem?_append_left hj] at hother
    exact absurd (hbeats other (List.mem_of_getElem? hother) signal hattains) (Int.lt_irrefl _)

/-- What is on top stays there over a run that does not beat it. -/
theorem Tops.snoc {leader : Best} (h : chain.Tops seen leader)
    (hle : ∀ value, chain.Gives phases (.finished (some value)) →
      value.val ≤ leader.signal.val) : chain.Tops (seen ++ [phases]) leader := by
  obtain ⟨k, hk, hearliest⟩ := h.earliest
  have hlt : k < seen.length := (List.getElem?_eq_some_iff.mp hk).1
  refine ⟨fun other hother value hvalue => ?_, h.gives, k, ?_, fun j hj other hother => ?_⟩
  · rcases List.mem_append.mp hother with hother | hother
    · exact h.greatest other hother value hvalue
    · obtain rfl := List.mem_singleton.mp hother
      exact hle value hvalue
  · rw [List.getElem?_append_left hlt, hk]
  · rw [List.getElem?_append_left (by omega)] at hother
    exact hearliest j hj other hother

/-- Of two that give the same signal only one is the earliest. -/
theorem Tops.unique {first second : Best} (h : chain.Tops seen first)
    (h' : chain.Tops seen second) : first = second := by
  obtain ⟨k, hk, hearliest⟩ := h.earliest
  obtain ⟨k', hk', hearliest'⟩ := h'.earliest
  have hsignal : first.signal = second.signal := Word.ext (Int.le_antisymm
    (h'.greatest _ (List.mem_of_getElem? hk) _ h.gives)
    (h.greatest _ (List.mem_of_getElem? hk') _ h'.gives))
  have hphases : first.phases = second.phases := by
    rcases Nat.lt_trichotomy k k' with hlt | rfl | hlt
    · exact absurd (hsignal ▸ h.gives) (hearliest' k hlt _ hk)
    · exact Option.some.inj (hk.symm.trans hk')
    · exact absurd (hsignal ▸ h'.gives) (hearliest k' hlt _ hk')
  cases first
  cases second
  cases hsignal
  cases hphases
  rfl

/-- **A run that finishes leaves the best so far.** -/
theorem Leads.snoc (h : chain.Leads seen best) {result : Option Word}
    (hgives : chain.Gives phases (.finished result)) :
    chain.Leads (seen ++ [phases]) (Best.afterRun best phases result) := by
  cases best with
  | none =>
    have hnone : ∀ other ∈ seen, ∀ value, ¬ chain.Gives other (.finished (some value)) := by
      intro other hother value hvalue
      cases hvalue.unique (h other hother)
    cases result with
    | none =>
      intro other hother
      rcases List.mem_append.mp hother with hother | hother
      · exact h other hother
      · obtain rfl := List.mem_singleton.mp hother
        exact hgives
    | some signal =>
      exact tops_of_lt hgives fun other hother value hvalue =>
        absurd hvalue (hnone other hother value)
  | some leader =>
    cases result with
    | none =>
      refine Tops.snoc h fun value hvalue => ?_
      cases hvalue.unique hgives
    | some signal =>
      simp only [Best.afterRun, Best.update]
      by_cases hlt : leader.signal.val < signal.val
      · rw [if_pos hlt]
        exact tops_of_lt hgives fun other hother value hvalue =>
          Int.lt_of_le_of_lt (h.greatest other hother value hvalue) hlt
      · rw [if_neg hlt]
        refine Tops.snoc h fun value hvalue => ?_
        cases hvalue.unique hgives
        exact Int.not_lt.mp hlt

/-- **A search that finishes has found the best**, and all its runs have finished. -/
theorem Searches.leads {result : Option Best} (hlead : chain.Leads seen best)
    (h : chain.Searches best list (.finished result)) :
    chain.Leads (seen ++ list) result ∧
      ∀ phases ∈ list, ∃ result, chain.Gives phases (.finished result) := by
  induction list generalizing best seen with
  | nil =>
    cases searches_nil_iff.mp h
    rw [List.append_nil]
    exact ⟨hlead, by simp⟩
  | cons first rest ih =>
    rcases searches_cons_iff.mp h with ⟨value, hfirst, hrest⟩ | ⟨fault, -, heq⟩
    · obtain ⟨hleads, hall⟩ := ih (hlead.snoc hfirst) hrest
      rw [List.append_assoc, List.singleton_append] at hleads
      refine ⟨hleads, fun phases hphases => ?_⟩
      rcases List.mem_cons.mp hphases with rfl | hphases
      · exact ⟨value, hfirst⟩
      · exact hall phases hphases
    · cases heq

theorem Leads.unique {other : Option Best} (h : chain.Leads seen best)
    (h' : chain.Leads seen other) : best = other := by
  -- where one has a signal the other cannot be without
  have hnot {leader : Best} (hnone : chain.Leads seen none) (htops : chain.Tops seen leader) :
      False := by
    obtain ⟨k, hk, -⟩ := htops.earliest
    cases htops.gives.unique (hnone _ (List.mem_of_getElem? hk))
  cases best with
  | none =>
    cases other with
    | none => rfl
    | some leader => exact (hnot h h').elim
  | some first =>
    cases other with
    | none => exact (hnot h' h).elim
    | some second => rw [Tops.unique h h']

/-! ## All orderings -/

theorem finds_faulted_iff {fault : Fault} :
    chain.Finds (.faulted fault) ↔
      ∃ (k : Nat) (phases : List Word), (orderings chain.phases)[k]? = some phases ∧
        chain.Gives phases (.faulted fault) ∧
        ∀ j < k, ∀ other, (orderings chain.phases)[j]? = some other →
          ∃ result, chain.Gives other (.finished result) :=
  finds_iff_searches.trans searches_faulted_iff

/-- If the chain comes to an end with every rearrangement, the search does. -/
theorem exists_finds (h : ∀ phases, phases.Perm chain.phases → ∃ ending, chain.Gives phases ending) :
    ∃ ending, chain.Finds ending := by
  simp only [← Orderings.mem_orderings] at h
  exact exists_searches h

/-- If a rearrangement faults, the search does not finish. -/
theorem not_finds_finished {fault : Fault} (hperm : phases.Perm chain.phases)
    (hfault : chain.Gives phases (.faulted fault)) (result : Option Best) :
    ¬ chain.Finds (.finished result) := by
  intro h
  have hnothing : chain.Leads [] none := by simp [Leads]
  obtain ⟨-, hall⟩ := (finds_iff_searches.mp h).leads hnothing
  obtain ⟨value, hvalue⟩ := hall phases (Orderings.mem_orderings.mpr hperm)
  cases hfault.unique hvalue

/-- If the chain finishes with every rearrangement, the search does. -/
theorem exists_finds_finished
    (h : ∀ phases, phases.Perm chain.phases → ∃ result, chain.Gives phases (.finished result)) :
    ∃ result, chain.Finds (.finished result) := by
  obtain ⟨ending, hending⟩ := exists_finds fun phases hperm =>
    (h phases hperm).imp' Ending.finished fun _ hgives => hgives
  cases ending with
  | unfinished => exact absurd rfl hending.1
  | finished result => exact ⟨result, hending⟩
  | faulted fault =>
    obtain ⟨k, phases, hk, hfault, -⟩ := finds_faulted_iff.mp hending
    obtain ⟨value, hvalue⟩ := h phases (Orderings.mem_orderings.mp (List.mem_of_getElem? hk))
    cases hfault.unique hvalue

/-- **The search finishes if all runs do, with the earliest of the greatest signals.** -/
theorem finds_finished_iff {result : Option Best} :
    chain.Finds (.finished result) ↔
      (∀ phases, phases.Perm chain.phases → ∃ result, chain.Gives phases (.finished result)) ∧
        chain.Leads (orderings chain.phases) result := by
  have hnothing : chain.Leads [] none := by simp [Leads]
  constructor
  · intro h
    obtain ⟨hleads, hall⟩ := (finds_iff_searches.mp h).leads hnothing
    exact ⟨fun phases hperm => hall phases (Orderings.mem_orderings.mpr hperm), hleads⟩
  · rintro ⟨hall, hleads⟩
    obtain ⟨other, hother⟩ := exists_finds_finished hall
    rw [hleads.unique ((finds_iff_searches.mp hother).leads hnothing).1]
    exact hother

/-- The search finishes without a signal if no rearrangement gives one. -/
theorem finds_none_iff :
    chain.Finds (.finished none) ↔
      ∀ phases, phases.Perm chain.phases → chain.Gives phases (.finished none) := by
  simp only [finds_finished_iff, Leads, Orderings.mem_orderings]
  exact ⟨fun h => h.2, fun h => ⟨fun phases hphases => ⟨none, h phases hphases⟩, h⟩⟩

/-- What the search finds is the greatest signal of all rearrangements, at the earliest ordering
that gives it. -/
theorem finds_some_iff {signal : Word} :
    chain.Finds (.finished (some ⟨signal, phases⟩)) ↔
      (∀ other, other.Perm chain.phases → ∃ result, chain.Gives other (.finished result)) ∧
      (∀ other, other.Perm chain.phases → ∀ value, chain.Gives other (.finished (some value)) →
        value.val ≤ signal.val) ∧
      chain.Gives phases (.finished (some signal)) ∧
      ∃ k : Nat, (orderings chain.phases)[k]? = some phases ∧
        ∀ j < k, ∀ other, (orderings chain.phases)[j]? = some other →
          ¬ chain.Gives other (.finished (some signal)) := by
  rw [finds_finished_iff]
  refine and_congr_right fun _ => ⟨fun h => ?_, fun ⟨hmax, hgives, hearliest⟩ => ?_⟩
  · exact ⟨fun other hother => h.greatest other (Orderings.mem_orderings.mpr hother), h.gives,
      h.earliest⟩
  · exact ⟨fun other hother => hmax other (Orderings.mem_orderings.mp hother), hgives, hearliest⟩

/-- Whether a signal is the greatest does not depend on the order of the settings. -/
theorem exists_finds_some_iff {signal : Word} :
    (∃ phases, chain.Finds (.finished (some ⟨signal, phases⟩))) ↔
      (∀ phases, phases.Perm chain.phases → ∃ result, chain.Gives phases (.finished result)) ∧
      (∀ phases, phases.Perm chain.phases → ∀ value, chain.Gives phases (.finished (some value)) →
        value.val ≤ signal.val) ∧
      ∃ phases, phases.Perm chain.phases ∧ chain.Gives phases (.finished (some signal)) := by
  constructor
  · rintro ⟨phases, h⟩
    obtain ⟨hall, hmax, hgives, k, hk, -⟩ := finds_some_iff.mp h
    exact ⟨hall, hmax, phases, Orderings.mem_orderings.mp (List.mem_of_getElem? hk), hgives⟩
  · rintro ⟨hall, hmax, phases, hperm, hgives⟩
    obtain ⟨result, hfinds⟩ := exists_finds_finished hall
    cases result with
    | none => cases hgives.unique (finds_none_iff.mp hfinds phases hperm)
    | some best =>
      obtain ⟨value, earliest⟩ := best
      obtain ⟨-, hmax', hgives', k, hk, -⟩ := finds_some_iff.mp hfinds
      have hearliest := Orderings.mem_orderings.mp (List.mem_of_getElem? hk)
      obtain rfl : value = signal := Word.ext (Int.le_antisymm
        (hmax earliest hearliest value hgives') (hmax' phases hperm signal hgives))
      exact ⟨earliest, hfinds⟩

/-- If the chain comes to an end with every rearrangement, the search faults if one of them does. -/
theorem exists_finds_faulted_iff
    (h : ∀ phases, phases.Perm chain.phases → ∃ ending, chain.Gives phases ending) :
    (∃ fault, chain.Finds (.faulted fault)) ↔
      ∃ phases fault, phases.Perm chain.phases ∧ chain.Gives phases (.faulted fault) := by
  constructor
  · rintro ⟨fault, hfinds⟩
    obtain ⟨k, phases, hk, hfault, -⟩ := finds_faulted_iff.mp hfinds
    exact ⟨phases, fault, Orderings.mem_orderings.mp (List.mem_of_getElem? hk), hfault⟩
  · rintro ⟨phases, fault, hperm, hfault⟩
    obtain ⟨ending, hending⟩ := exists_finds h
    cases ending with
    | unfinished => exact absurd rfl hending.1
    | finished result => exact absurd hending (not_finds_finished hperm hfault result)
    | faulted other => exact ⟨other, hending⟩

/-- **The search finds the best settings, and the order in which they are given does not matter.**
The search of any chain comes to at most one end. It faults like the first of the orderings that
does, if those before it finish. It finishes without a signal if with every rearrangement of the
settings the chain finishes without one. It finishes with a signal and settings if the chain
finishes with every rearrangement, none gives a greater signal, and the settings are the earliest of
the orderings that give this one. If the same settings are given in another order, the search finds
no signal if it found none before, and else the same signal.

If the chain comes to an end with every rearrangement, then so does the search, and it faults if
some rearrangement does, in whatever order the settings are given. -/
theorem search_is_optimal (chain : Chain) :
    (∀ ending other, chain.Finds ending → chain.Finds other → ending = other) ∧
    (∀ fault, chain.Finds (.faulted fault) ↔
      ∃ (k : Nat) (phases : List Word), (orderings chain.phases)[k]? = some phases ∧
        chain.Gives phases (.faulted fault) ∧
        ∀ j < k, ∀ other, (orderings chain.phases)[j]? = some other →
          ∃ result, chain.Gives other (.finished result)) ∧
    (chain.Finds (.finished none) ↔
      ∀ phases, phases.Perm chain.phases → chain.Gives phases (.finished none)) ∧
    (∀ signal phases, chain.Finds (.finished (some ⟨signal, phases⟩)) ↔
      (∀ other, other.Perm chain.phases → ∃ result, chain.Gives other (.finished result)) ∧
      (∀ other, other.Perm chain.phases → ∀ value, chain.Gives other (.finished (some value)) →
        value.val ≤ signal.val) ∧
      chain.Gives phases (.finished (some signal)) ∧
      ∃ k : Nat, (orderings chain.phases)[k]? = some phases ∧
        ∀ j < k, ∀ other, (orderings chain.phases)[j]? = some other →
          ¬ chain.Gives other (.finished (some signal))) ∧
    (∀ settings, settings.Perm chain.phases →
      let given : Chain := { chain with phases := settings }
      (given.Finds (.finished none) ↔ chain.Finds (.finished none)) ∧
      ∀ signal, (∃ phases, given.Finds (.finished (some ⟨signal, phases⟩))) ↔
        ∃ phases, chain.Finds (.finished (some ⟨signal, phases⟩))) ∧
    ((∀ phases, phases.Perm chain.phases → ∃ ending, chain.Gives phases ending) →
      (∃ ending, chain.Finds ending) ∧
      ∀ settings, settings.Perm chain.phases →
        ((∃ fault, ({ chain with phases := settings } : Chain).Finds (.faulted fault)) ↔
          ∃ phases fault, phases.Perm chain.phases ∧ chain.Gives phases (.faulted fault))) := by
  -- the settings of a chain and any others in their place have the same rearrangements
  have hsame {settings : List Word} (h : settings.Perm chain.phases) (phases : List Word) :
      phases.Perm settings ↔ phases.Perm chain.phases :=
    ⟨fun hphases => hphases.trans h, fun hphases => hphases.trans h.symm⟩
  refine ⟨fun _ _ h h' => h.unique h', fun _ => finds_faulted_iff, finds_none_iff,
    fun _ _ => finds_some_iff, fun settings hsettings => ?_, fun hreturns => ?_⟩
  · intro given
    have hgives (phases : List Word) (ending : Ending (Option Word)) :
        given.Gives phases ending ↔ chain.Gives phases ending := Iff.rfl
    constructor
    · simp only [finds_none_iff, given, hsame hsettings, hgives]
    · intro signal
      simp only [exists_finds_some_iff, given, hsame hsettings, hgives]
  · refine ⟨exists_finds hreturns, fun settings hsettings => ?_⟩
    have hgiven : ∀ phases, phases.Perm settings →
        ∃ ending, ({ chain with phases := settings } : Chain).Gives phases ending :=
      fun phases hphases => hreturns phases ((hsame hsettings phases).mp hphases)
    rw [exists_finds_faulted_iff hgiven]
    simp only [hsame hsettings]
    exact Iff.rfl

/-- A chain of machines that all output their setting, so that its signal is the last setting. -/
def echoing (phases : List Word) : Chain where
  program := ⟨[3, 0, 4, 0, 99]⟩
  phases := phases

/-- Minus five, a setting. -/
def lowSetting : Word := ⟨-5, by decide, by decide⟩

/-- Minus three, a setting. -/
def highSetting : Word := ⟨-3, by decide, by decide⟩

/-- Of two negative settings the greater one comes last in the best ordering, whichever was given
first; no rearrangement gives more. -/
theorem search_is_optimal_echoing :
    (∃ ending, (echoing [highSetting, lowSetting]).Finds ending) ∧
      (echoing [highSetting, lowSetting]).Finds
        (.finished (some ⟨highSetting, [lowSetting, highSetting]⟩)) ∧
      (∀ other, other.Perm [highSetting, lowSetting] →
        ∀ value, (echoing [highSetting, lowSetting]).Gives other (.finished (some value)) →
          value.val ≤ -3) ∧
      ∃ phases, (echoing [lowSetting, highSetting]).Finds
        (.finished (some ⟨highSetting, phases⟩)) := by
  have hreturns : ∀ phases, phases.Perm [highSetting, lowSetting] →
      ∃ ending, (echoing [highSetting, lowSetting]).Gives phases ending := by
    intro phases hperm
    have hmem : phases ∈ [[highSetting, lowSetting], [lowSetting, highSetting]] :=
      Orderings.mem_orderings.mpr hperm
    simp only [List.mem_cons, List.not_mem_nil, or_false] at hmem
    rcases hmem with rfl | rfl
    · exact ⟨.finished (some lowSetting), by simp, 9, by decide⟩
    · exact ⟨.finished (some highSetting), by simp, 9, by decide⟩
  have hfinds : (echoing [highSetting, lowSetting]).Finds
      (.finished (some ⟨highSetting, [lowSetting, highSetting]⟩)) := ⟨by simp, 9, by decide⟩
  obtain ⟨-, -, -, hbest, hagree, hends⟩ := search_is_optimal (echoing [highSetting, lowSetting])
  obtain ⟨-, hmax, -⟩ := (hbest highSetting [lowSetting, highSetting]).mp hfinds
  obtain ⟨-, hsignal⟩ := hagree [lowSetting, highSetting] (.swap highSetting lowSetting [])
  exact ⟨(hends hreturns).1, hfinds, hmax, (hsignal highSetting).mpr ⟨_, hfinds⟩⟩

end Intcode.Chain
