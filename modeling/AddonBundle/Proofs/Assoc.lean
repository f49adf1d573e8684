import AddonBundle.Assoc
import AddonBundle.Proofs.Text
import Mathlib.Data.List.Induction
/-!
# Ordered maps

What each operation on an ordered map does to the view `get?` and to the keys.
-/

namespace AddonBundle.Assoc

variable {κ ν : Type} [DecidableEq κ]

theorem get?_nil (key : κ) : get? key ([] : List (κ × ν)) = none := rfl

theorem get?_cons (key k : κ) (v : ν) (rest : List (κ × ν)) :
    get? key ((k, v) :: rest) = if k = key then some v else get? key rest := rfl

theorem put_nil (key : κ) (value : ν) : put key value [] = [(key, value)] := rfl

theorem put_cons (key k : κ) (value v : ν) (rest : List (κ × ν)) :
    put key value ((k, v) :: rest) =
      if k = key then (k, value) :: rest else (k, v) :: put key value rest := rfl

theorem get?_put (key key' : κ) (value : ν) (pairs : List (κ × ν)) :
    get? key' (put key value pairs) = if key' = key then some value else get? key' pairs := by
  induction pairs with
  | nil => simp [put_nil, get?_cons, get?_nil, eq_comm]
  | cons pair rest ih =>
      obtain ⟨k, v⟩ := pair
      by_cases hk : k = key
      · subst hk
        by_cases hkey : k = key'
        · simp [put_cons, get?_cons, hkey]
        · simp [put_cons, get?_cons, hkey, Ne.symm hkey]
      · by_cases hkey : k = key'
        · subst hkey
          simp [put_cons, get?_cons, hk]
        · simp [put_cons, get?_cons, hk, hkey, ih]

theorem get?_filter (keep : κ → Bool) (key : κ) (pairs : List (κ × ν)) :
    get? key (pairs.filter fun pair => keep pair.1) =
      if keep key then get? key pairs else none := by
  induction pairs with
  | nil => simp [get?_nil]
  | cons pair rest ih =>
      obtain ⟨k, v⟩ := pair
      by_cases hk : k = key
      · subst hk
        cases hkeep : keep k
        · simpa [List.filter_cons, get?_cons, hkeep] using ih
        · simp [get?_cons, hkeep]
      · cases hkeep : keep k
        · simpa [List.filter_cons, get?_cons, hkeep, hk] using ih
        · simpa [List.filter_cons, get?_cons, hkeep, hk] using ih

theorem isSome_get? (key : κ) (pairs : List (κ × ν)) :
    (get? key pairs).isSome = true ↔ key ∈ pairs.map (·.1) := by
  induction pairs with
  | nil => simp [get?_nil]
  | cons pair rest ih =>
      obtain ⟨k, v⟩ := pair
      by_cases hk : k = key
      · simp [get?_cons, hk]
      · simp [get?_cons, hk, ih, Ne.symm hk]

theorem mem_keys_put {key k : κ} {value : ν} {pairs : List (κ × ν)} :
    k ∈ (put key value pairs).map (·.1) ↔ k = key ∨ k ∈ pairs.map (·.1) := by
  rw [← isSome_get?, ← isSome_get?, get?_put]
  by_cases hk : k = key <;> simp [hk]

theorem nodup_keys_put {key : κ} {value : ν} {pairs : List (κ × ν)}
    (h : (pairs.map (·.1)).Nodup) : ((put key value pairs).map (·.1)).Nodup := by
  induction pairs with
  | nil => simp [put_nil]
  | cons pair rest ih =>
      obtain ⟨k, v⟩ := pair
      rw [List.map_cons, List.nodup_cons] at h
      by_cases hk : k = key
      · simpa [put_cons, hk] using ⟨by simpa [hk] using h.1, h.2⟩
      · have hmem : k ∉ (put key value rest).map (·.1) := by
          rw [mem_keys_put, not_or]
          exact ⟨hk, h.1⟩
        simpa [put_cons, hk] using ⟨by simpa using hmem, ih h.2⟩

theorem keys_putNew (key : κ) (value : ν) (pairs : List (κ × ν)) :
    (putNew key value pairs).map (·.1) =
      if key ∈ pairs.map (·.1) then pairs.map (·.1) else pairs.map (·.1) ++ [key] := by
  simp only [putNew, isSome_get?]
  split <;> simp_all

theorem get?_append (key : κ) (front back : List (κ × ν)) :
    get? key (front ++ back) = (get? key front).or (get? key back) := by
  induction front with
  | nil => simp [get?_nil]
  | cons pair front ih =>
      obtain ⟨k, v⟩ := pair
      by_cases hk : k = key
      · simp [get?_cons, hk]
      · simp [get?_cons, hk, ih]

theorem get?_putNew (key key' : κ) (value : ν) (pairs : List (κ × ν)) :
    get? key' (putNew key value pairs) =
      (get? key' pairs).or (if key = key' then some value else none) := by
  unfold putNew
  split
  · rename_i hsome
    by_cases hkey : key = key'
    · subst hkey
      rw [Option.or_of_isSome hsome]
    · simp [hkey]
  · rw [get?_append]
    rfl

theorem mem_of_get? {key : κ} {value : ν} {pairs : List (κ × ν)}
    (h : get? key pairs = some value) : (key, value) ∈ pairs := by
  induction pairs with
  | nil => cases h
  | cons pair rest ih =>
      obtain ⟨k, v⟩ := pair
      by_cases hk : k = key
      · simp only [get?_cons, hk, if_true, Option.some.injEq] at h
        simp [hk, h]
      · simp only [get?_cons, hk, if_false] at h
        exact List.mem_cons_of_mem _ (ih h)

theorem put_of_not_mem {key : κ} {value : ν} {pairs : List (κ × ν)}
    (h : key ∉ pairs.map (·.1)) : put key value pairs = pairs ++ [(key, value)] := by
  induction pairs with
  | nil => rfl
  | cons pair rest ih =>
      obtain ⟨k, v⟩ := pair
      rw [List.map_cons, List.mem_cons, not_or] at h
      rw [put_cons, if_neg (Ne.symm h.1), ih h.2, List.cons_append]

theorem put_put (key : κ) (old value : ν) (pairs : List (κ × ν)) :
    put key value (put key old pairs) = put key value pairs := by
  induction pairs with
  | nil => simp [put_nil, put_cons]
  | cons pair rest ih =>
      obtain ⟨k, v⟩ := pair
      by_cases hk : k = key
      · simp [put_cons, hk]
      · simp [put_cons, hk, ih]

theorem mem_put {key : κ} {value : ν} {pair : κ × ν} {pairs : List (κ × ν)}
    (h : pair ∈ put key value pairs) : pair = (key, value) ∨ pair ∈ pairs := by
  induction pairs with
  | nil => exact .inl (List.mem_singleton.mp h)
  | cons first rest ih =>
      obtain ⟨k, v⟩ := first
      by_cases hk : k = key
      · rw [put_cons, if_pos hk, List.mem_cons] at h
        exact h.imp (fun h => hk ▸ h) (List.mem_cons_of_mem _)
      · rw [put_cons, if_neg hk, List.mem_cons] at h
        obtain rfl | h := h
        · exact .inr List.mem_cons_self
        · exact (ih h).imp_right (List.mem_cons_of_mem _)

/-! ## The map of a list of pairs -/

theorem ofList_append_singleton (pairs : List (κ × ν)) (pair : κ × ν) :
    ofList (pairs ++ [pair]) = put pair.1 pair.2 (ofList pairs) := by
  rw [ofList, List.foldl_append]
  rfl

theorem mem_ofList {pair : κ × ν} {pairs : List (κ × ν)} (h : pair ∈ ofList pairs) :
    pair ∈ pairs := by
  induction pairs using List.reverseRecOn with
  | nil => exact h
  | append_singleton pairs last ih =>
      rw [ofList_append_singleton] at h
      rw [List.mem_append, List.mem_singleton]
      obtain rfl | h := mem_put h
      · exact .inr rfl
      · exact .inl (ih h)

end AddonBundle.Assoc
