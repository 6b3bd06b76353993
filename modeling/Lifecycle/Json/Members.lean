/-! The members of an object: a finite map from keys to values, held as a list in strictly
ascending order of the keys. Keys are ordered by code point. -/

namespace Lifecycle

abbrev Members (α : Type) := List (String × α)

namespace Members

variable {α : Type}

def insert (key : String) (value : α) : Members α → Members α
  | [] => [(key, value)]
  | (k, v) :: rest =>
    if key < k then (key, value) :: (k, v) :: rest
    else if key = k then (key, value) :: rest
    else (k, v) :: insert key value rest

def get? (key : String) : Members α → Option α
  | [] => none
  | (k, v) :: rest => if key = k then some v else get? key rest

def ofList (entries : List (String × α)) : Members α :=
  entries.foldl (fun m (k, v) => m.insert k v) []

def keys (m : Members α) : List String := m.map (·.1)

def Ascending (m : Members α) : Prop := m.keys.Pairwise (· < ·)

theorem get?_insert (key k : String) (value : α) (m : Members α) :
    (m.insert key value).get? k = if k = key then some value else m.get? k := by
  fun_induction insert key value m with
  | case1 => simp [get?]
  | case2 => simp [get?]
  | case3 v rest h =>
    by_cases e : k = key <;> simp [get?, e]
  | case4 k' v rest lt ne ih =>
    by_cases e : k = k'
    · subst e
      simp [get?, Ne.symm ne]
    · simp [get?, e, ih]

theorem mem_of_get? {key : String} {value : α} {m : Members α} (found : m.get? key = some value) :
    (key, value) ∈ m := by
  fun_induction get? key m with
  | case1 => cases found
  | case2 =>
    cases found
    exact List.mem_cons_self
  | case3 _ _ _ _ ih => exact List.mem_cons_of_mem _ (ih found)

theorem mem_keys_insert {key k : String} {value : α} {m : Members α} :
    k ∈ (m.insert key value).keys ↔ k = key ∨ k ∈ m.keys := by
  fun_induction insert key value m with
  | case1 => simp [keys]
  | case2 => simp [keys]
  | case3 => simp [keys]
  | case4 k' v rest _ _ ih =>
    simp only [keys, List.map_cons, List.mem_cons] at ih ⊢
    rw [ih]
    grind

end Members

end Lifecycle
