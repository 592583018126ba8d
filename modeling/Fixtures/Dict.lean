/-!
# Keyed lists in ascending key order

A `Dict` is a list of pairs whose keys ascend strictly. Text keys compare by
code point, which is also the order of their UTF-8 bytes. `insert` keeps the
order (`ascending_insert`) and replaces the value of a key that is there;
`get?_insert` says what a lookup finds afterwards.
-/

namespace Fixtures

/-- Pairs kept in ascending key order by `insert` and `erase`. -/
abbrev Dict (κ : Type) (ν : Type) := List (κ × ν)

namespace Dict

variable {κ ν μ : Type} [Ord κ]

/-- Every key is below all later keys. -/
def Ascending (d : Dict κ ν) : Prop := d.Pairwise fun p q => compare p.1 q.1 = .lt

/-- The value stored under `k`. -/
def get? : Dict κ ν → κ → Option ν
  | [], _ => none
  | (k', v) :: rest, k => if compare k k' = .eq then some v else get? rest k

/-- `k` has a value. -/
def has (d : Dict κ ν) (k : κ) : Bool := (d.get? k).isSome

/-- Store `v` under `k`, replacing the value `k` had. -/
def insert : Dict κ ν → κ → ν → Dict κ ν
  | [], k, v => [(k, v)]
  | (k', v') :: rest, k, v =>
    match compare k k' with
    | .lt => (k, v) :: (k', v') :: rest
    | .eq => (k, v) :: rest
    | .gt => (k', v') :: insert rest k v

/-- Drop `k` and its value. -/
def erase : Dict κ ν → κ → Dict κ ν
  | [], _ => []
  | (k', v) :: rest, k => if compare k k' = .eq then rest else (k', v) :: erase rest k

/-- Store a value under `k`, or drop the one it had. -/
def assign (d : Dict κ ν) (k : κ) : Option ν → Dict κ ν
  | some v => d.insert k v
  | none => d.erase k

/-- Assign the rows of a list in order. -/
def overlay (d : Dict κ ν) (rows : List (κ × Option ν)) : Dict κ ν := rows.foldl (fun acc p => acc.assign p.1 p.2) d

/-- All of `d`, then all of `e` over it. -/
def extend (d e : Dict κ ν) : Dict κ ν := e.foldl (fun acc p => acc.insert p.1 p.2) d

/-- The pairs of `l` in key order; of two with one key the later stays. -/
def ofPairs (l : List (κ × ν)) : Dict κ ν := extend [] l

/-- The keys, ascending. -/
def keys (d : Dict κ ν) : List κ := d.map Prod.fst

/-- The values, in the order of their keys. -/
def values (d : Dict κ ν) : List ν := d.map Prod.snd

/-- A lookup after an insert finds the new value under its key, and under any other what was there. -/
theorem get?_insert [Std.OrientedOrd κ] [Std.LawfulEqOrd κ] (d : Dict κ ν) (k : κ) (v : ν) (j : κ) :
    (d.insert k v).get? j = if compare j k = .eq then some v else d.get? j := by
  induction d with
  | nil => simp [insert, get?]
  | cons p rest ih =>
    obtain ⟨k', v'⟩ := p
    cases hc : compare k k' with
    | lt => simp [insert, hc, get?]
    | eq =>
      obtain rfl := Std.LawfulEqOrd.eq_of_compare hc
      simp only [insert, hc, get?]
      split <;> rfl
    | gt =>
      simp only [insert, hc, get?, ih]
      by_cases h : compare j k' = .eq
      · obtain rfl := Std.LawfulEqOrd.eq_of_compare h
        have : compare j k ≠ .eq := by
          intro he
          rw [Std.LawfulEqOrd.eq_of_compare he] at hc
          simp at hc
        simp [this]
      · simp [h]

/-- Inserting keeps the order. -/
theorem ascending_insert [Std.TransOrd κ] [Std.LawfulEqOrd κ] {d : Dict κ ν} (h : d.Ascending)
    (k : κ) (v : ν) : (d.insert k v).Ascending := by
  induction d with
  | nil => simp [insert, Ascending]
  | cons p rest ih =>
    obtain ⟨k', v'⟩ := p
    unfold Ascending at h ih
    rw [List.pairwise_cons] at h
    cases hc : compare k k' with
    | lt =>
      simp only [insert, hc, Ascending]
      refine List.pairwise_cons.2 ⟨?_, List.pairwise_cons.2 h⟩
      intro q hq
      rcases List.mem_cons.1 hq with rfl | hq
      · exact hc
      · exact Std.TransCmp.lt_trans hc (h.1 q hq)
    | eq =>
      obtain rfl := Std.LawfulEqOrd.eq_of_compare hc
      simp only [insert, hc, Ascending]
      exact List.pairwise_cons.2 h
    | gt =>
      simp only [insert, hc, Ascending]
      refine List.pairwise_cons.2 ⟨?_, ih h.2⟩
      have mem : ∀ (d : Dict κ ν) (q : κ × ν), q ∈ d.insert k v → q = (k, v) ∨ q ∈ d := by
        intro d q
        induction d with
        | nil => simp [insert]
        | cons p d ihd =>
          obtain ⟨a, b⟩ := p
          simp only [insert]
          split <;> simp only [List.mem_cons]
          · exact id
          · rintro (h | h)
            · exact .inl h
            · exact .inr (.inr h)
          · rintro (h | h)
            · exact .inr (.inl h)
            · exact (ihd h).imp id .inr
      intro q hq
      rcases mem rest q hq with rfl | hq
      · exact Std.OrientedCmp.lt_of_gt hc
      · exact h.1 q hq

end Dict

end Fixtures
