import CurvePlot.Proofs.Plot.RulesKey

/-!
# Caches change no report

A cache is sound when every outcome that it keeps is the one that sampling would have, under any
rules with the key it is kept under. Fetching keeps a cache sound, whatever is evicted, and answers
with the outcome of sampling; so do whole runs, and so do sessions in which any aggregators share
one cache that is cleared at any time (`OutcomeCache.session_transparent`).
-/

namespace CurvePlot

namespace MemoTable

variable {κ ν : Type} [DecidableEq κ]

/-- After fetching, a table keeps the pair that was fetched and nothing new besides. -/
theorem mem_entries_fetch {t : MemoTable κ ν} {key : κ} {compute : Unit → ν} {entry : κ × ν}
    (h : entry ∈ (t.fetch key compute).table.entries) :
    entry = (key, (t.fetch key compute).result) ∨ entry ∈ t.entries := by
  unfold fetch at h ⊢
  split at h
  · rcases List.mem_cons.mp h with rfl | h
    · exact Or.inl rfl
    · exact Or.inr (List.mem_of_mem_filter h)
  · rcases List.mem_cons.mp h with rfl | h
    · exact Or.inl rfl
    · exact Or.inr (List.mem_of_mem_take h)

/-- A fetched result is kept in the table or computed. -/
theorem result_fetch (t : MemoTable κ ν) (key : κ) (compute : Unit → ν) :
    (key, (t.fetch key compute).result) ∈ t.entries ∨ (t.fetch key compute).result = compute () := by
  unfold fetch
  split
  · next result h =>
    obtain ⟨before, behind, hentries, -⟩ := List.lookup_eq_some_iff.mp h
    exact Or.inl (by rw [hentries]; simp)
  · exact Or.inr rfl

end MemoTable

/-- A step in the life of a cache that aggregators share. -/
inductive CacheStep where
  /-- All outcomes are forgotten. -/
  | clear
  /-- A report is made under these rules and options. -/
  | run (rules : ReadingRules) (o : DrawingOptions) (formulas : List String)

/-- The report that a step makes without a cache; forgetting makes none. -/
def CacheStep.uncached : CacheStep → Option (Except MappingError Report)
  | clear => none
  | run rules o formulas => some (Report.run rules o formulas)

namespace OutcomeCache

/-- The report that a step makes with the cache, and the cache afterwards. -/
def step (cache : OutcomeCache) : CacheStep → Option (Except MappingError Report) × OutcomeCache
  | .clear => (none, cache.clear)
  | .run rules o formulas =>
    let (report, final) := run rules o cache formulas
    (some report, final)

/-- The reports of all steps in order, and the cache afterwards. -/
def session (cache : OutcomeCache) :
    List CacheStep → List (Option (Except MappingError Report)) × OutcomeCache
  | [] => ([], cache)
  | next :: rest =>
    let (report, between) := step cache next
    let (reports, final) := session between rest
    (report :: reports, final)

/-- Whether every kept outcome is the one of sampling, under any rules with its key. -/
def Sound (cache : OutcomeCache) : Prop :=
  ∀ entry ∈ cache.entries, ∀ rules : ReadingRules, rules.key = entry.1.rules →
    entry.2 = rules.sample entry.1.formula

/-- An empty cache is sound. -/
theorem sound_empty (capacity : ℕ) : Sound (MemoTable.empty capacity) :=
  fun _ h => nomatch h

/-- A cleared cache is sound. -/
theorem sound_clear (cache : OutcomeCache) : Sound cache.clear :=
  fun _ h => nomatch h

/-- A sound cache answers with the outcome of sampling. -/
theorem result_fetch_eq_sample {cache : OutcomeCache} (hcache : Sound cache)
    (rules : ReadingRules) (formula : String) :
    (fetch cache rules formula fun _ => rules.sample formula).result = rules.sample formula := by
  rcases MemoTable.result_fetch cache ⟨formula, rules.key⟩ fun _ => rules.sample formula with h | h
  · exact hcache _ h rules rfl
  · exact h

/-- Fetching keeps a cache sound: all rules with the key in question sample alike. -/
theorem sound_fetch {cache : OutcomeCache} (hcache : Sound cache) (rules : ReadingRules)
    (formula : String) : Sound (fetch cache rules formula fun _ => rules.sample formula).table := by
  intro entry hentry other hkey
  rcases MemoTable.mem_entries_fetch hentry with rfl | hentry
  · have hresult := result_fetch_eq_sample hcache rules formula
    have hother : other.sample formula = rules.sample formula :=
      ReadingRules.sample_eq_of_key_eq hkey formula
    exact hresult.trans hother.symm
  · exact hcache entry hentry other hkey

/-- A sound cache has the outcomes of sampling for all formulas, and stays sound. -/
theorem outcomes_eq_map {cache : OutcomeCache} (hcache : Sound cache) (rules : ReadingRules)
    (formulas : List String) :
    (outcomes rules cache formulas).1 =
        formulas.map (fun formula => (formula, rules.sample formula)) ∧
      Sound (outcomes rules cache formulas).2 := by
  induction formulas generalizing cache with
  | nil => exact ⟨rfl, hcache⟩
  | cons formula rest ih =>
    obtain ⟨hrest, hfinal⟩ := ih (sound_fetch hcache rules formula)
    refine ⟨?_, hfinal⟩
    simp only [outcomes, List.map_cons, hrest, result_fetch_eq_sample hcache]

/-- A step with a sound cache makes the report without one, and keeps the cache sound. -/
theorem step_eq_uncached {cache : OutcomeCache} (hcache : Sound cache) (next : CacheStep) :
    (step cache next).1 = next.uncached ∧ Sound (step cache next).2 := by
  cases next with
  | clear => exact ⟨rfl, sound_clear cache⟩
  | run rules o formulas =>
    obtain ⟨hfound, hfinal⟩ := outcomes_eq_map hcache rules formulas
    refine ⟨?_, hfinal⟩
    simp only [step, run, hfound, CacheStep.uncached, Report.run]

/-- A session with a sound cache makes the reports without one, and keeps the cache sound. -/
theorem session_eq_map {cache : OutcomeCache} (hcache : Sound cache) (steps : List CacheStep) :
    (session cache steps).1 = steps.map CacheStep.uncached ∧ Sound (session cache steps).2 := by
  induction steps generalizing cache with
  | nil => exact ⟨rfl, hcache⟩
  | cons next rest ih =>
    obtain ⟨hreport, hbetween⟩ := step_eq_uncached hcache next
    obtain ⟨hreports, hfinal⟩ := ih hbetween
    refine ⟨?_, hfinal⟩
    simp only [session, List.map_cons, hreport, hreports]

/-- Whatever its capacity, a cache changes no report of any session: neither that of the same rules
nor, where keys collide, that of others, which sample every formula alike. -/
theorem session_transparent :
    (∀ (capacity : ℕ) (steps : List CacheStep),
      (session (MemoTable.empty capacity) steps).1 = steps.map CacheStep.uncached) ∧
    ∀ first second : ReadingRules, first.key = second.key →
      ∀ formula : String, first.sample formula = second.sample formula :=
  ⟨fun capacity steps => (session_eq_map (sound_empty capacity) steps).1,
    fun _ _ h formula => ReadingRules.sample_eq_of_key_eq h formula⟩

/-- The standard rules with an agreed lower bound. -/
def rulesFrom (min : Option Float) : ReadingRules :=
  { ReadingRules.standard with defaultRange := some ⟨min, none, none⟩ }

/-- An agreed lower bound that is no number has the key of a missing one, though the rules differ,
and the samples are the same. -/
theorem session_transparent_nan :
    (rulesFrom (some (0 / 0))).key = (rulesFrom none).key ∧
      rulesFrom (some (0 / 0)) ≠ rulesFrom none ∧
      (rulesFrom (some (0 / 0))).sample "linear:2,3" = (rulesFrom none).sample "linear:2,3" := by
  have hkey : (rulesFrom (some (0 / 0))).key = (rulesFrom none).key := by
    rw [ReadingRules.key_eq_iff]
    decide
  refine ⟨hkey, ?_, session_transparent.2 _ _ hkey _⟩
  decide

end OutcomeCache

end CurvePlot
