import CurvePlot.Plot.Cache
import Mathlib.Data.List.Dedup
import Mathlib.Data.List.DropRight
import Mathlib.Data.List.Nodup

/-!
# Caches keep the most recent keys

What a cache keeps depends on the history of its calls alone: the keys asked for since the last
clearing, each once and the most recent first, up to the capacity (`OutcomeCache.residents`). An
outcome is computed exactly when its key is not among them, and it is then answered for as long as
the key stays there, whatever later calls would compute (`OutcomeCache.answers_due`).
-/

namespace CurvePlot

/-! ### Recency in lists -/

/-- A value that comes again moves to the end of the values without repetition. -/
theorem dedup_append_singleton {α : Type} [DecidableEq α] (xs : List α) (x : α) :
    (xs ++ [x]).dedup = xs.dedup.filter (fun y => !decide (y = x)) ++ [x] := by
  induction xs with
  | nil => rfl
  | cons y ys ih =>
    rw [List.cons_append, List.dedup_cons, List.dedup_cons, ih]
    by_cases hy : y ∈ ys
    · rw [if_pos hy, if_pos (List.mem_append_left _ hy)]
    · by_cases hyx : y = x
      · rw [if_neg hy, if_pos (by simp [hyx]), List.filter_cons_of_neg (by simpa using hyx)]
      · rw [if_neg hy, if_neg (by simp [hy, hyx]), List.filter_cons_of_pos (by simpa using hyx),
          List.cons_append]

/-- The most recent values up to a limit, when one of them or a further one comes to the front. -/
theorem take_recent {α : Type} [DecidableEq α] {xs : List α} (hxs : xs.Nodup) {limit : ℕ}
    (hlimit : 0 < limit) (x : α) :
    (x :: xs.filter fun y => !decide (y = x)).take limit =
      x :: if x ∈ xs.take limit then (xs.take limit).filter fun y => !decide (y = x)
        else (xs.take limit).take (limit - 1) := by
  obtain ⟨n, rfl⟩ : ∃ n, limit = n + 1 := ⟨limit - 1, by omega⟩
  have hself : ∀ ys : List α, x ∉ ys → ys.filter (fun y => !decide (y = x)) = ys := by
    intro ys hys
    refine List.filter_eq_self.mpr fun y hy => ?_
    simpa using fun h : y = x => hys (h ▸ hy)
  rw [List.take_succ_cons, Nat.add_sub_cancel, List.take_take, Nat.min_eq_left (Nat.le_succ n)]
  congr 1
  by_cases hx : x ∈ xs
  · obtain ⟨front, back, rfl⟩ := List.append_of_mem hx
    have hfront : x ∉ front := fun h => (List.disjoint_of_nodup_append hxs) h (by simp)
    have hback : x ∉ back := (List.nodup_cons.mp (List.nodup_append.mp hxs).2.1).1
    have hrest : (front ++ x :: back).filter (fun y => !decide (y = x)) = front ++ back := by
      rw [List.filter_append, List.filter_cons_of_neg (by simp), hself front hfront,
        hself back hback]
    rw [hrest]
    rcases Nat.lt_or_ge n front.length with hn | hn
    · -- The value lies beyond the limit.
      have htake : (front ++ x :: back).take (n + 1) = front.take (n + 1) :=
        List.take_append_of_le_length hn
      rw [htake, if_neg fun h => hfront (List.mem_of_mem_take h),
        List.take_append_of_le_length hn.le, List.take_append_of_le_length hn.le]
    · have htake : (front ++ x :: back).take (n + 1) = front ++ x :: back.take (n - front.length) := by
        rw [List.take_append, List.take_of_length_le (by omega),
          show n + 1 - front.length = n - front.length + 1 by omega, List.take_succ_cons]
      rw [htake, if_pos (by simp), List.filter_append, List.filter_cons_of_neg (by simp),
        hself front hfront, hself _ fun h => hback (List.mem_of_mem_take h), List.take_append,
        List.take_of_length_le hn]
  · rw [hself xs hx, if_neg fun h => hx (List.mem_of_mem_take h)]

/-! ### Calls -/

/-- A call to a cache. -/
inductive CacheCall where
  /-- The outcome of a formula is asked for. -/
  | get (rules : ReadingRules) (formula : String) (compute : Unit → Except FormulaError Series)
  /-- All outcomes are forgotten. -/
  | clear
  /-- The number of kept outcomes is asked for. -/
  | size

/-- What a call answers. -/
inductive CacheAnswer where
  /-- An outcome, and whether it was computed now. -/
  | outcome (result : Except FormulaError Series) (computed : Bool)
  /-- Nothing is left. -/
  | cleared
  /-- The number of kept outcomes. -/
  | size (count : ℕ)

namespace CacheCall

/-- The key that a call asks for. -/
def key? : CacheCall → Option OutcomeKey
  | get rules formula _ => some ⟨formula, rules.key⟩
  | clear | size => none

/-- Whether a call clears the cache. -/
def isClear : CacheCall → Bool
  | clear => true
  | get .. | size => false

end CacheCall

namespace MemoTable

variable {κ ν : Type} [DecidableEq κ]

/-- A key has a result just if it is kept. -/
theorem find?_eq_none_iff (t : MemoTable κ ν) (key : κ) : t.find? key = none ↔ key ∉ t.keys := by
  rw [find?, List.lookup_eq_none_iff]
  constructor
  · intro h hkey
    obtain ⟨entry, hentry, rfl⟩ := List.mem_map.mp hkey
    simpa using h entry hentry
  · intro h entry hentry
    rw [bne_iff_ne]
    rintro rfl
    exact h (List.mem_map_of_mem hentry)

/-- A result that is found is kept. -/
theorem mem_of_find? {t : MemoTable κ ν} {key : κ} {result : ν} (h : t.find? key = some result) :
    (key, result) ∈ t.entries := by
  obtain ⟨front, back, hentries, -⟩ := List.lookup_eq_some_iff.mp h
  rw [hentries]
  simp

/-- A fetched key comes to the front. A new one takes the place of the last. -/
theorem keys_fetch (t : MemoTable κ ν) (key : κ) (compute : Unit → ν) :
    (t.fetch key compute).table.keys =
      key :: if key ∈ t.keys then t.keys.filter fun other => !decide (other = key)
        else t.keys.take (t.capacity - 1) := by
  cases hfind : t.find? key with
  | none =>
    rw [if_neg ((find?_eq_none_iff t key).mp hfind)]
    simp [fetch, hfind, keys, List.map_take]
  | some result =>
    have hmem : key ∈ t.keys := by
      by_contra hmem
      rw [(find?_eq_none_iff t key).mpr hmem] at hfind
      cases hfind
    rw [if_pos hmem]
    simp only [fetch, hfind, keys, without, List.map_cons, List.filter_map]
    rfl

end MemoTable

namespace OutcomeCache

/-- The answer to a call, and the cache afterwards. -/
def answer (cache : OutcomeCache) : CacheCall → CacheAnswer × OutcomeCache
  | .get rules formula compute =>
    let fetched := fetch cache rules formula compute
    (.outcome fetched.result fetched.computed, fetched.table)
  | .clear => (.cleared, cache.clear)
  | .size => (.size (MemoTable.size cache), cache)

/-- The answers to all calls in order, and the cache afterwards. -/
def answers (cache : OutcomeCache) : List CacheCall → List CacheAnswer × OutcomeCache
  | [] => ([], cache)
  | call :: rest =>
    let (first, between) := answer cache call
    let (others, final) := answers between rest
    (first :: others, final)

/-! ### What a history demands -/

/-- The keys asked for since the last clearing, each once, the most recent first. -/
def recentKeys (history : List CacheCall) : List OutcomeKey :=
  ((history.rtakeWhile fun call => !call.isClear).filterMap CacheCall.key?).dedup.reverse

/-- The keys that a cache of this capacity keeps after a history. -/
def residents (capacity : ℕ) (history : List CacheCall) : List OutcomeKey :=
  (recentKeys history).take (max capacity 1)

/-- Whether a result is the one that was computed when its key became resident: by a call that asked
for the key when it was not resident, and since which it has been, before every call up to the
given place. -/
def Origin (capacity : ℕ) (history : List CacheCall) (key : OutcomeKey) (place : ℕ)
    (result : Except FormulaError Series) : Prop :=
  ∃ i ≤ place, ∃ rules compute, history[i]? = some (.get rules key.formula compute) ∧
    rules.key = key.rules ∧ key ∉ residents capacity (history.take i) ∧
    (∀ n, i < n → n ≤ place → key ∈ residents capacity (history.take n)) ∧ result = compute ()

/-- What the answer to the call at a place has to be. -/
def Due (capacity : ℕ) (history : List CacheCall) (place : ℕ) : CacheCall → CacheAnswer → Prop
  | .get rules formula _, answer => ∃ result,
      Origin capacity history ⟨formula, rules.key⟩ place result ∧
      answer = .outcome result
        (decide (⟨formula, rules.key⟩ ∉ residents capacity (history.take place)))
  | .clear, answer => answer = .cleared
  | .size, answer => answer = .size (residents capacity (history.take place)).length

/-- No key is counted twice. -/
theorem nodup_recentKeys (history : List CacheCall) : (recentKeys history).Nodup :=
  List.nodup_reverse.mpr (List.nodup_dedup _)

/-- A key that is asked for is the most recent one. -/
theorem recentKeys_append_get (history : List CacheCall) (rules : ReadingRules) (formula : String)
    (compute : Unit → Except FormulaError Series) :
    recentKeys (history ++ [.get rules formula compute]) = ⟨formula, rules.key⟩ ::
      (recentKeys history).filter fun other => !decide (other = ⟨formula, rules.key⟩) := by
  rw [recentKeys, List.rtakeWhile_concat_pos _ _ _ rfl, List.filterMap_append]
  change ((_ ++ [_]).dedup).reverse = _
  rw [dedup_append_singleton, List.reverse_append, ← List.filter_reverse]
  rfl

/-- After a clearing nothing has been asked for. -/
theorem recentKeys_append_clear (history : List CacheCall) :
    recentKeys (history ++ [.clear]) = [] := by
  rw [recentKeys, List.rtakeWhile_concat_neg _ _ _ (by simp [CacheCall.isClear])]
  rfl

/-- Asking for the size asks for no key. -/
theorem recentKeys_append_size (history : List CacheCall) :
    recentKeys (history ++ [.size]) = recentKeys history := by
  rw [recentKeys, List.rtakeWhile_concat_pos _ _ _ rfl, List.filterMap_append]
  change ((_ ++ []).dedup).reverse = _
  rw [List.append_nil]
  rfl

/-- Every call has an answer. -/
theorem length_answers (cache : OutcomeCache) (history : List CacheCall) :
    (answers cache history).1.length = history.length := by
  induction history generalizing cache with
  | nil => rfl
  | cons call rest ih => simp [answers, ih]

variable {capacity place : ℕ} {history : List CacheCall} {key : OutcomeKey}
  {result : Except FormulaError Series}

/-- Where a result came from does not change by later calls. -/
theorem Origin.append (h : Origin capacity history key place result)
    (hplace : place ≤ history.length) (more : List CacheCall) :
    Origin capacity (history ++ more) key place result := by
  obtain ⟨i, hi, rules, compute, hcall, hkey, habsent, hresident, hresult⟩ := h
  have hlt : i < history.length := (List.getElem?_eq_some_iff.mp hcall).1
  refine ⟨i, hi, rules, compute, ?_, hkey, ?_, fun n hn hle => ?_, hresult⟩
  · rw [List.getElem?_append_left hlt, hcall]
  · rwa [List.take_append_of_le_length hlt.le]
  · rw [List.take_append_of_le_length (hle.trans hplace)]
    exact hresident n hn hle

/-- A result stays the one of its key after a call that leaves the key resident. -/
theorem Origin.extend {call : CacheCall}
    (h : Origin capacity (history ++ [call]) key history.length result)
    (hresident : key ∈ residents capacity (history ++ [call])) :
    Origin capacity (history ++ [call]) key (history ++ [call]).length result := by
  obtain ⟨i, hi, rules, compute, hcall, hkey, habsent, hup, hresult⟩ := h
  have hlength : (history ++ [call]).length = history.length + 1 := List.length_append
  refine ⟨i, by omega, rules, compute, hcall, hkey, habsent, fun n hn hle => ?_, hresult⟩
  rcases Nat.lt_or_ge history.length n with hlt | hge
  · rwa [List.take_of_length_le (by omega)]
  · exact hup n hn hge

/-- What is due does not change by later calls. -/
theorem Due.append {call : CacheCall} {answer : CacheAnswer}
    (h : Due capacity history place call answer) (hplace : place ≤ history.length)
    (more : List CacheCall) : Due capacity (history ++ more) place call answer := by
  cases call with
  | get rules formula compute =>
    obtain ⟨result, horigin, hanswer⟩ := h
    refine ⟨result, horigin.append hplace more, ?_⟩
    rwa [List.take_append_of_le_length hplace]
  | clear => exact h
  | size =>
    change answer = _
    rwa [List.take_append_of_le_length hplace]

/-! ### Every cache has its history -/

/-- Whether a cache is as the history of its calls demands. -/
structure Tracks (capacity : ℕ) (history : List CacheCall) (cache : OutcomeCache) : Prop where
  /-- The capacity is the given one, or one. -/
  capacity_eq : cache.capacity = max capacity 1
  /-- The most recent keys are kept. -/
  keys_eq : MemoTable.keys cache = residents capacity history
  /-- Every result is that of its key. -/
  origin : ∀ entry ∈ cache.entries, Origin capacity history entry.1 history.length entry.2

/-- A new cache has no history. -/
theorem tracks_empty (capacity : ℕ) : Tracks capacity [] (MemoTable.empty capacity) :=
  ⟨rfl, List.take_nil.symm, fun _ h => nomatch h⟩

/-- A fetched result came from the call that made its key resident, this one if the key is not. -/
theorem Tracks.origin_fetch {cache : OutcomeCache} (h : Tracks capacity history cache)
    (rules : ReadingRules) (formula : String) (compute : Unit → Except FormulaError Series) :
    Origin capacity (history ++ [.get rules formula compute]) ⟨formula, rules.key⟩ history.length
        (fetch cache rules formula compute).result ∧
      (fetch cache rules formula compute).computed =
        decide (⟨formula, rules.key⟩ ∉ residents capacity history) := by
  unfold fetch MemoTable.fetch
  cases hfind : MemoTable.find? cache ⟨formula, rules.key⟩ with
  | some result =>
    have hkept : ⟨formula, rules.key⟩ ∈ residents capacity history := by
      rw [← h.keys_eq]
      exact List.mem_map_of_mem (MemoTable.mem_of_find? hfind)
    refine ⟨?_, by simp [hkept]⟩
    exact (h.origin _ (MemoTable.mem_of_find? hfind)).append le_rfl _
  | none =>
    have habsent : ⟨formula, rules.key⟩ ∉ residents capacity history := by
      rw [← h.keys_eq]
      exact (MemoTable.find?_eq_none_iff cache _).mp hfind
    refine ⟨⟨history.length, le_rfl, rules, compute, ?_, rfl, ?_, fun n hn hle => ?_, rfl⟩,
      by simp [habsent]⟩
    · simp
    · rwa [List.take_append_of_le_length le_rfl, List.take_length]
    · omega

/-- After a call that asks for an outcome the cache is as the longer history demands. -/
theorem Tracks.get {cache : OutcomeCache} (h : Tracks capacity history cache)
    (rules : ReadingRules) (formula : String) (compute : Unit → Except FormulaError Series) :
    Tracks capacity (history ++ [.get rules formula compute])
      (fetch cache rules formula compute).table := by
  have hkeys : MemoTable.keys (fetch cache rules formula compute).table =
      residents capacity (history ++ [.get rules formula compute]) := by
    rw [fetch, MemoTable.keys_fetch, h.keys_eq, h.capacity_eq, residents, residents,
      recentKeys_append_get, take_recent (nodup_recentKeys history) (by omega)]
  refine ⟨(MemoTable.capacity_fetch _ _ _).trans h.capacity_eq, hkeys, fun entry hentry => ?_⟩
  have hresident : entry.1 ∈ residents capacity (history ++ [.get rules formula compute]) := by
    rw [← hkeys]
    exact List.mem_map_of_mem hentry
  have horigin : Origin capacity (history ++ [.get rules formula compute]) entry.1 history.length
      entry.2 := by
    have hfetched := (h.origin_fetch rules formula compute).1
    unfold fetch MemoTable.fetch at hentry hfetched
    split at hentry
    · next result hfind =>
      rw [hfind] at hfetched
      rcases List.mem_cons.mp hentry with rfl | hentry
      · exact hfetched
      · exact (h.origin entry (List.mem_of_mem_filter hentry)).append le_rfl _
    · next hfind =>
      rw [hfind] at hfetched
      rcases List.mem_cons.mp hentry with rfl | hentry
      · exact hfetched
      · exact (h.origin entry (List.mem_of_mem_take hentry)).append le_rfl _
  exact horigin.extend hresident

/-- A call keeps the cache as its history demands, and is answered as is due. -/
theorem Tracks.step {cache : OutcomeCache} (h : Tracks capacity history cache)
    (call : CacheCall) :
    Tracks capacity (history ++ [call]) (answer cache call).2 ∧
      Due capacity (history ++ [call]) history.length call (answer cache call).1 := by
  have hbefore : (history ++ [call]).take history.length = history := by
    rw [List.take_append_of_le_length le_rfl, List.take_length]
  cases call with
  | get rules formula compute =>
    obtain ⟨horigin, hcomputed⟩ := h.origin_fetch rules formula compute
    refine ⟨h.get rules formula compute, _, horigin, ?_⟩
    rw [hbefore, ← hcomputed]
    rfl
  | clear =>
    refine ⟨⟨h.capacity_eq, ?_, fun _ hentry => nomatch hentry⟩, rfl⟩
    rw [residents, recentKeys_append_clear, List.take_nil]
    rfl
  | size =>
    have hresidents : residents capacity (history ++ [.size]) = residents capacity history := by
      rw [residents, recentKeys_append_size, residents]
    refine ⟨⟨h.capacity_eq, h.keys_eq.trans hresidents.symm, fun entry hentry => ?_⟩, ?_⟩
    · have hresident : entry.1 ∈ residents capacity (history ++ [.size]) := by
        rw [hresidents, ← h.keys_eq]
        exact List.mem_map_of_mem hentry
      exact ((h.origin entry hentry).append le_rfl _).extend hresident
    · change CacheAnswer.size _ = .size _
      rw [hbefore, ← h.keys_eq, MemoTable.keys, List.length_map, MemoTable.size]

/-- So do all calls of a run. -/
theorem Tracks.run {cache : OutcomeCache} (h : Tracks capacity history cache)
    (rest : List CacheCall) :
    Tracks capacity (history ++ rest) (answers cache rest).2 ∧
      ∀ i call, rest[i]? = some call → ∃ answer, (answers cache rest).1[i]? = some answer ∧
        Due capacity (history ++ rest) (history.length + i) call answer := by
  induction rest generalizing history cache with
  | nil => exact ⟨by simpa [answers] using h, fun i call hcall => by simp at hcall⟩
  | cons first rest ih =>
    obtain ⟨hbetween, hdue⟩ := h.step first
    obtain ⟨hfinal, hrest⟩ := ih hbetween
    rw [List.append_assoc, List.singleton_append] at hfinal hrest
    refine ⟨hfinal, fun i call hcall => ?_⟩
    cases i with
    | zero =>
      obtain rfl : first = call := by simpa using hcall
      have hlonger := hdue.append (by simp) rest
      rw [List.append_assoc, List.singleton_append] at hlonger
      exact ⟨_, rfl, hlonger⟩
    | succ i =>
      obtain ⟨answer, hanswer, hlonger⟩ := hrest i call (by simpa using hcall)
      rw [List.length_append, List.length_singleton, Nat.add_assoc, Nat.add_comm 1 i] at hlonger
      exact ⟨answer, hanswer, hlonger⟩

/-- After any calls a cache keeps the keys most recently asked for since the last clearing, as many
as there are up to its capacity, and every call was answered as is due. -/
theorem answers_due (capacity : ℕ) (history : List CacheCall) :
    MemoTable.keys (answers (MemoTable.empty capacity) history).2 = residents capacity history ∧
      (residents capacity history).length = min (max capacity 1) (recentKeys history).length ∧
      (recentKeys history).Nodup ∧
      (answers (MemoTable.empty capacity) history).1.length = history.length ∧
      ∀ i call, history[i]? = some call →
        ∃ answer, (answers (MemoTable.empty capacity) history).1[i]? = some answer ∧
          Due capacity history i call answer := by
  obtain ⟨htracks, hdue⟩ := (tracks_empty capacity).run history
  refine ⟨htracks.keys_eq, List.length_take, nodup_recentKeys history, length_answers _ _,
    fun i call hcall => ?_⟩
  simpa using hdue i call hcall

/-- A request under the standard rules whose computation would refuse the formula for a reason of
its own, so that two computations can be told apart. -/
def refusal (formula : String) (fault : FormulaFault) : CacheCall :=
  .get .standard formula fun _ => .error ⟨fault, formula⟩

/-- Three formulas, the second asked for twice, and the first once more behind the third. -/
def evictingCalls : List CacheCall :=
  [refusal "1" .unrecognized, refusal "2" .unrecognized, refusal "2" .equalsSigns,
    refusal "3" .unrecognized, .size, refusal "1" .equalsSigns]

/-- With room for two, the second request for `2` has the outcome of the first, and `1` is computed
again. -/
theorem answers_due_evicting :
    (∃ result, Origin 2 evictingCalls ⟨"2", ReadingRules.standard.key⟩ 2 result ∧
      (answers (MemoTable.empty 2) evictingCalls).1[2]? = some (.outcome result false)) ∧
    (∃ result, Origin 2 evictingCalls ⟨"1", ReadingRules.standard.key⟩ 5 result ∧
      (answers (MemoTable.empty 2) evictingCalls).1[5]? = some (.outcome result true)) ∧
    MemoTable.keys (answers (MemoTable.empty 2) evictingCalls).2 =
      [⟨"1", ReadingRules.standard.key⟩, ⟨"3", ReadingRules.standard.key⟩] := by
  obtain ⟨hkeys, -, -, -, hdue⟩ := answers_due 2 evictingCalls
  have hkept : ⟨"2", ReadingRules.standard.key⟩ ∈ residents 2 (evictingCalls.take 2) := by
    decide +kernel
  have hevicted : ⟨"1", ReadingRules.standard.key⟩ ∉ residents 2 (evictingCalls.take 5) := by
    decide +kernel
  have hfinal : residents 2 evictingCalls =
      [⟨"1", ReadingRules.standard.key⟩, ⟨"3", ReadingRules.standard.key⟩] := by
    decide +kernel
  refine ⟨?_, ?_, hkeys.trans hfinal⟩
  · obtain ⟨answer, hanswer, result, horigin, rfl⟩ := hdue 2 (refusal "2" .equalsSigns) rfl
    exact ⟨result, horigin, by rw [hanswer]; simp [hkept]⟩
  · obtain ⟨answer, hanswer, result, horigin, rfl⟩ := hdue 5 (refusal "1" .equalsSigns) rfl
    exact ⟨result, horigin, by rw [hanswer]; simp [hevicted]⟩

end OutcomeCache

end CurvePlot
