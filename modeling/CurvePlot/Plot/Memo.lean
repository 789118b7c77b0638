/-!
# Tables of recent results

A table keeps the results of the keys that were asked for most recently, up to its capacity. A key
that it holds is answered from the table and becomes the most recent one; the result of any other
key is computed, kept, and the least recent key gives way when the table is full. The capacity is at
least one.
-/

namespace CurvePlot

/-- Results by key, the most recent key first. -/
structure MemoTable (κ ν : Type) where
  /-- How many results are kept. -/
  capacity : Nat
  /-- The kept results, the most recent key first. -/
  entries : List (κ × ν)

namespace MemoTable

variable {κ ν : Type}

/-- A table without results. -/
def empty (capacity : Nat) : MemoTable κ ν :=
  ⟨Nat.max capacity 1, []⟩

/-- The table with all results forgotten. -/
def clear (t : MemoTable κ ν) : MemoTable κ ν :=
  { t with entries := [] }

/-- The number of kept results. -/
def size (t : MemoTable κ ν) : Nat :=
  t.entries.length

/-- The kept keys, the most recent first. -/
def keys (t : MemoTable κ ν) : List κ :=
  t.entries.map Prod.fst

/-- The answer to a key, and whether it had to be computed. -/
structure Fetched (κ ν : Type) where
  /-- The result. -/
  result : ν
  /-- Whether it was computed now. -/
  computed : Bool
  /-- The table afterwards. -/
  table : MemoTable κ ν

variable [DecidableEq κ]

/-- The kept result of a key. -/
def find? (t : MemoTable κ ν) (key : κ) : Option ν :=
  t.entries.lookup key

/-- The table without a key. -/
def without (t : MemoTable κ ν) (key : κ) : List (κ × ν) :=
  t.entries.filter fun entry => !decide (entry.1 = key)

/-- The result of a key, from the table or computed now. -/
def fetch (t : MemoTable κ ν) (key : κ) (compute : Unit → ν) : Fetched κ ν :=
  match t.find? key with
  | some result => ⟨result, false, { t with entries := (key, result) :: t.without key }⟩
  | none =>
    let result := compute ()
    ⟨result, true, { t with entries := (key, result) :: t.entries.take (t.capacity - 1) }⟩

/-- The capacity stays as it is. -/
@[simp] theorem capacity_fetch (t : MemoTable κ ν) (key : κ) (compute : Unit → ν) :
    (t.fetch key compute).table.capacity = t.capacity := by
  unfold fetch
  split <;> rfl

end MemoTable

end CurvePlot
