import CurvePlot.Plot.Report
import Mathlib.Data.List.Induction

/-!
# Series by family

Putting series to those of their families one by one partitions a list: every family has one place,
the places stand in the order of the families' first series, each holds all series of its family in
their order, and none is empty. This is kept by every series that is added
(`FamilyGroup.Partitions.addMember`), and so it holds of every list
(`FamilyGroup.partitions_membersOf`).
-/

namespace CurvePlot.FamilyGroup

/-- Where a family's first series stands. -/
def firstIndex (series : List Series) (family : Family) : ℕ :=
  series.findIdx fun s => s.family == family

/-- Whether series are partitioned by family, in the order of the families' first series. -/
structure Partitions (series : List Series) (found : List (Family × List Series)) : Prop where
  /-- A place holds all series of its family in order. -/
  members : ∀ p ∈ found, p.2 = series.filter fun s => s.family == p.1
  /-- No place is empty. -/
  nonempty : ∀ p ∈ found, p.2 ≠ []
  /-- Every series has a place. -/
  total : ∀ s ∈ series, s.family ∈ found.map Prod.fst
  /-- The places stand in the order of their first series. -/
  order : found.Pairwise fun p q => firstIndex series p.1 < firstIndex series q.1
  /-- Together, the places hold as many series as there are. -/
  count : (found.flatMap Prod.snd).length = series.length

variable {series : List Series} {found : List (Family × List Series)}

/-- Places in a strict order have different families. -/
theorem Partitions.nodup (h : Partitions series found) : (found.map Prod.fst).Nodup := by
  rw [List.Nodup, List.pairwise_map]
  exact h.order.imp fun hlt heq => by rw [heq] at hlt; exact Nat.lt_irrefl _ hlt

/-- A place's family has a series. -/
theorem Partitions.firstIndex_lt (h : Partitions series found) {p : Family × List Series}
    (hp : p ∈ found) : firstIndex series p.1 < series.length := by
  have hne := h.nonempty p hp
  rw [h.members p hp] at hne
  obtain ⟨s, hs⟩ := List.exists_mem_of_ne_nil _ hne
  obtain ⟨hmem, hfamily⟩ := List.mem_filter.mp hs
  exact List.findIdx_lt_length_of_exists ⟨s, hmem, hfamily⟩

/-- Where a family has a series, one more behind all does not move its first. -/
theorem firstIndex_append {family : Family} (h : firstIndex series family < series.length)
    (s : Series) : firstIndex (series ++ [s]) family = firstIndex series family := by
  unfold firstIndex at h ⊢
  rw [List.findIdx_append, if_pos h]

/-- One series more at the place of its family. -/
def extend (s : Series) (p : Family × List Series) : Family × List Series :=
  if p.1 == s.family then (p.1, p.2 ++ [s]) else p

/-- Extending a place keeps its family. -/
@[simp] theorem fst_extend (s : Series) (p : Family × List Series) : (extend s p).1 = p.1 := by
  unfold extend
  split <;> rfl

/-- A series whose family has a place is put there, and nothing else changes. -/
theorem addMember_of_mem {s : Series} (hnodup : (found.map Prod.fst).Nodup)
    (h : s.family ∈ found.map Prod.fst) : addMember s found = found.map (extend s) := by
  induction found with
  | nil => cases h
  | cons p rest ih =>
    obtain ⟨family, members⟩ := p
    rw [List.map_cons, List.nodup_cons] at hnodup
    obtain ⟨hfresh, hnodup⟩ := hnodup
    unfold addMember
    split
    · next hfamily =>
      have hrest : rest.map (extend s) = rest := by
        refine (List.map_congr_left fun q hq => ?_).trans (List.map_id rest)
        have hq : ¬(q.1 == s.family) = true := by
          rw [← beq_iff_eq.mp hfamily, beq_iff_eq]
          intro heq
          exact hfresh (List.mem_map.mpr ⟨q, hq, heq⟩)
        rw [extend, if_neg hq, id]
      rw [List.map_cons, hrest, extend, if_pos hfamily]
    · next hfamily =>
      have hmem : s.family ∈ rest.map Prod.fst := by
        rcases List.mem_cons.mp h with heq | hmem
        · exact absurd (beq_iff_eq.mpr heq.symm) hfamily
        · exact hmem
      rw [List.map_cons, ih hnodup hmem, extend, if_neg hfamily]

/-- A series of a new family gets a place behind all others. -/
theorem addMember_of_not_mem {s : Series} (h : s.family ∉ found.map Prod.fst) :
    addMember s found = found ++ [(s.family, [s])] := by
  induction found with
  | nil => rfl
  | cons p rest ih =>
    obtain ⟨family, members⟩ := p
    rw [List.map_cons, List.mem_cons, not_or] at h
    have hfamily : ¬(family == s.family) = true := fun heq => h.1 (beq_iff_eq.mp heq).symm
    rw [addMember, if_neg hfamily, ih h.2, List.cons_append]

/-- One more series is counted once. -/
theorem count_addMember (s : Series) (found : List (Family × List Series)) :
    ((addMember s found).flatMap Prod.snd).length = (found.flatMap Prod.snd).length + 1 := by
  induction found with
  | nil => rfl
  | cons p rest ih =>
    obtain ⟨family, members⟩ := p
    unfold addMember
    split
    · simp only [List.flatMap_cons, List.length_append, List.length_singleton]
      omega
    · rw [List.flatMap_cons, List.flatMap_cons, List.length_append, List.length_append, ih]
      omega

/-- One series more of a family that has a place: the places stay, and its own is extended. -/
theorem Partitions.map_extend (h : Partitions series found) {s : Series}
    (hmem : s.family ∈ found.map Prod.fst)
    (hcount : ((found.map (extend s)).flatMap Prod.snd).length = (series ++ [s]).length) :
    Partitions (series ++ [s]) (found.map (extend s)) where
  members := by
    intro q hq
    obtain ⟨p, hp, rfl⟩ := List.mem_map.mp hq
    rw [fst_extend, List.filter_append, ← h.members p hp]
    unfold extend
    split
    · next hfamily =>
      have hs : (s.family == p.1) = true := by rw [beq_iff_eq] at hfamily ⊢; exact hfamily.symm
      simp [hs]
    · next hfamily =>
      have hs : (s.family == p.1) = false :=
        beq_false_of_ne fun heq => hfamily (beq_iff_eq.mpr heq.symm)
      simp [hs]
  nonempty := by
    intro q hq
    obtain ⟨p, hp, rfl⟩ := List.mem_map.mp hq
    unfold extend
    split
    · simp
    · exact h.nonempty p hp
  total := by
    intro t ht
    have hfamilies : (found.map (extend s)).map Prod.fst = found.map Prod.fst := by simp
    rw [hfamilies]
    rcases List.mem_append.mp ht with ht | ht
    · exact h.total t ht
    · rw [List.mem_singleton.mp ht]
      exact hmem
  order := by
    rw [List.pairwise_map]
    refine h.order.imp_of_mem fun hp hq hlt => ?_
    rw [fst_extend, fst_extend, firstIndex_append (h.firstIndex_lt hp),
      firstIndex_append (h.firstIndex_lt hq)]
    exact hlt
  count := hcount

/-- One series more of a new family: it gets the last place. -/
theorem Partitions.append_place (h : Partitions series found) {s : Series}
    (hmem : s.family ∉ found.map Prod.fst)
    (hcount : ((found ++ [(s.family, [s])]).flatMap Prod.snd).length = (series ++ [s]).length) :
    Partitions (series ++ [s]) (found ++ [(s.family, [s])]) where
  members := by
    have hnone : series.filter (fun t => t.family == s.family) = [] := by
      rw [List.filter_eq_nil_iff]
      intro t ht heq
      exact hmem (beq_iff_eq.mp heq ▸ h.total t ht)
    intro p hp
    rw [List.filter_append]
    rcases List.mem_append.mp hp with hp | hp
    · have hs : (s.family == p.1) = false :=
        beq_false_of_ne fun heq => hmem (heq ▸ List.mem_map_of_mem hp)
      rw [← h.members p hp]
      simp [hs]
    · rw [List.mem_singleton.mp hp, hnone]
      simp
  nonempty := by
    intro p hp
    rcases List.mem_append.mp hp with hp | hp
    · exact h.nonempty p hp
    · rw [List.mem_singleton.mp hp]
      exact List.cons_ne_nil _ _
  total := by
    intro t ht
    rw [List.map_append, List.mem_append]
    rcases List.mem_append.mp ht with ht | ht
    · exact Or.inl (h.total t ht)
    · rw [List.mem_singleton.mp ht]
      exact Or.inr (List.mem_singleton_self _)
  order := by
    have hnew : series.findIdx (fun t => t.family == s.family) = series.length :=
      List.findIdx_eq_length.mpr fun t ht => beq_false_of_ne fun heq => hmem (heq ▸ h.total t ht)
    have hlast : firstIndex (series ++ [s]) s.family = series.length := by
      simp [firstIndex, List.findIdx_append, hnew]
    rw [List.pairwise_append]
    refine ⟨h.order.imp_of_mem fun hp hq hlt => ?_, List.pairwise_singleton _ _, ?_⟩
    · rw [firstIndex_append (h.firstIndex_lt hp), firstIndex_append (h.firstIndex_lt hq)]
      exact hlt
    · intro p hp q hq
      rw [List.mem_singleton.mp hq, firstIndex_append (h.firstIndex_lt hp), hlast]
      exact h.firstIndex_lt hp
  count := hcount

/-- What is partitioned stays so with one series more. -/
theorem Partitions.addMember (h : Partitions series found) (s : Series) :
    Partitions (series ++ [s]) (addMember s found) := by
  have hcount : ((FamilyGroup.addMember s found).flatMap Prod.snd).length =
      (series ++ [s]).length := by
    rw [count_addMember, h.count, List.length_append, List.length_singleton]
  by_cases hmem : s.family ∈ found.map Prod.fst
  · rw [addMember_of_mem h.nodup hmem] at hcount ⊢
    exact h.map_extend hmem hcount
  · rw [addMember_of_not_mem hmem] at hcount ⊢
    exact h.append_place hmem hcount

/-- Every list of series is partitioned. -/
theorem partitions_membersOf (series : List Series) : Partitions series (membersOf series) := by
  induction series using List.reverseRecOn with
  | nil => exact ⟨by simp [membersOf], by simp [membersOf], by simp, List.Pairwise.nil, rfl⟩
  | append_singleton series s ih =>
    rw [membersOf, List.foldl_append]
    exact ih.addMember s

/-- Series of one family have one place. -/
theorem membersOf_of_family {family : Family} (hne : series ≠ [])
    (h : ∀ s ∈ series, s.family = family) : membersOf series = [(family, series)] := by
  induction series using List.reverseRecOn with
  | nil => exact absurd rfl hne
  | append_singleton series s ih =>
    have hs : s.family = family := h s (by simp)
    rw [membersOf, List.foldl_append, ← membersOf]
    by_cases hempty : series = []
    · rw [hempty, ← hs]
      rfl
    · rw [ih hempty fun t ht => h t (List.mem_append_left _ ht), ← hs]
      simp [addMember]

end CurvePlot.FamilyGroup
